import TmmsServer.Rtmp.OutDiscipline

/-!
# Room for the headers of a batch

Where the headers of a batch fit `out_buffer_` every body is among the buffers
whole. Where they do not, one is written past the end or a body is cut.
-/
namespace TmmsServer
open Lib.Words

/-- The nodes hold the body bytes from `b` up to `n` of the packet in this place. -/
def HoldsBody (nodes : List BufferNode) (slot b n : Nat) : Prop :=
  ∀ i, b ≤ i → i < n → ∃ off size, ⟨.packet slot off, size⟩ ∈ nodes ∧ off ≤ i ∧ i < off + size

/-- No node holds the last of `n` body bytes. -/
def Cut (nodes : List BufferNode) (n : Nat) : Prop :=
  ∀ slot off size, ⟨.packet slot off, size⟩ ∈ nodes → off + size < n

theorem Cut.not_holdsBody {nodes : List BufferNode} {slot n : Nat} (h : Cut nodes n) (hn : 0 < n) :
    ¬ HoldsBody nodes slot 0 n := by
  intro hcovers
  obtain ⟨off, size, hmem, -, hlt⟩ := hcovers (n - 1) (Nat.zero_le _) (by omega)
  have hcut := h slot off size hmem
  omega

namespace RtmpOut

/-- Building went on from `s` to `s'` with `n` more bytes of headers and these nodes. -/
structure Built (s s' : RtmpOut) (n : Nat) (nodes : List BufferNode) : Prop where
  current : s'.outCurrent = s.outCurrent + n
  stream : s'.stream = s.stream
  queue : s'.outWaitingQueue = s.outWaitingQueue
  packets : s'.outSendingPackets = s.outSendingPackets
  bufs : s'.sendingBufs = s.sendingBufs ++ nodes

section Built
variable {s s₁ s₂ : RtmpOut} {n m : Nat} {nodes more : List BufferNode} {bs : List UInt8}

theorem Built.trans (h : Built s s₁ n nodes) (h' : Built s₁ s₂ m more) :
    Built s s₂ (n + m) (nodes ++ more) where
  current := by rw [h'.current, h.current, Nat.add_assoc]
  stream := h'.stream.trans h.stream
  queue := h'.queue.trans h.queue
  packets := h'.packets.trans h.packets
  bufs := by rw [h'.bufs, h.bufs, List.append_assoc]

theorem putBody_built (s : RtmpOut) (slot off size : Nat) :
    Built s (s.putBody slot off size) 0 [⟨.packet slot off, size⟩] := ⟨rfl, rfl, rfl, rfl, rfl⟩

theorem putHeader_built (s : RtmpOut) (bs : List UInt8) :
    if s.outCurrent + bs.length ≤ 4096 then
      ∃ s', s.putHeader bs = .ok s' ∧ Built s s' bs.length [⟨.outBuffer s.outCurrent, bs.length⟩]
    else s.putHeader bs = .error .outOfBounds := by
  unfold putHeader OutBuffer.write
  split
  · exact ⟨_, rfl, rfl, rfl, rfl, rfl, rfl⟩
  · rfl

theorem putHeader_fits (h : s.outCurrent + bs.length ≤ 4096) :
    ∃ s', s.putHeader bs = .ok s' ∧ Built s s' bs.length [⟨.outBuffer s.outCurrent, bs.length⟩] := by
  have hput := putHeader_built s bs
  rwa [if_pos h] at hput

theorem putHeader_ok (h : s.putHeader bs = .ok s₁) : s.outCurrent + bs.length ≤ 4096 ∧
    Built s s₁ bs.length [⟨.outBuffer s.outCurrent, bs.length⟩] := by
  have hput := putHeader_built s bs
  split at hput
  next hfits =>
    obtain ⟨s', hs', hbuilt⟩ := hput
    obtain rfl := Except.ok.inj (hs'.symm.trans h)
    exact ⟨hfits, hbuilt⟩
  next => exact absurd (hput.symm.trans h) nofun

end Built

section Body
variable {slot : Nat} {msgLen : UInt32} {next : List UInt8}

theorem continuations_more {n : Nat} (h : 4096 < n) :
    continuations n = continuations (n - 4096) + 1 := by
  unfold continuations
  omega

/-- With room for its headers the loop covers what is left of the body. -/
theorem bodyLoop_covers (hmax : msgLen.toNat < 2 ^ 31) (hnext : 0 < next.length) (fuel : Nat)
    {s : RtmpOut} {b : Nat} (hb : b ≤ msgLen.toNat) (hfuel : msgLen.toNat - b < fuel)
    (hroom : s.outCurrent + next.length * continuations (msgLen.toNat - b) ≤ 4096) :
    ∃ s' nodes, bodyLoop slot msgLen next fuel s b = .ok s' ∧
      Built s s' (next.length * continuations (msgLen.toNat - b)) nodes ∧ HoldsBody nodes slot b msgLen.toNat := by
  induction fuel generalizing s b with
  | zero => exact absurd hfuel (Nat.not_lt_zero _)
  | succ fuel ih =>
      by_cases hlast : msgLen.toNat - b ≤ 4096
      · have hnone : continuations (msgLen.toNat - b) = 0 := by
          unfold continuations
          omega
        rw [hnone, Nat.mul_zero]
        refine ⟨_, _, bodyLoop_last hmax hb hlast, putBody_built s slot b _, ?_⟩
        intro i hi hlt
        exact ⟨b, msgLen.toNat - b, List.mem_singleton_self _, hi, by omega⟩
      · have hmore : msgLen.toNat - b - 4096 = msgLen.toNat - (b + 4096) := by omega
        rw [continuations_more (Nat.not_le.mp hlast), hmore, Nat.mul_add, Nat.mul_one] at hroom ⊢
        have hput := putBody_built s slot b 4096
        obtain ⟨s₁, hs₁, hbuilt₁⟩ := @putHeader_fits (s.putBody slot b 4096) next
          (by change s.outCurrent + _ ≤ _; omega)
        have hcurrent : s₁.outCurrent = s.outCurrent + next.length := hbuilt₁.current
        obtain ⟨s₂, nodes, hs₂, hbuilt₂, hcovers⟩ :=
          @ih s₁ (b + 4096) (by omega) (by omega) (by omega)
        have hall := (hput.trans hbuilt₁).trans hbuilt₂
        rw [Nat.zero_add, Nat.add_comm] at hall
        refine ⟨s₂, _, ?_, hall, ?_⟩
        · rw [bodyLoop_more hmax (by omega) (by omega), hs₁, ok_bind, hs₂]
        · intro i hi hlt
          by_cases hfirst : i < b + 4096
          · exact ⟨b, 4096, List.mem_cons_self, hi, hfirst⟩
          · obtain ⟨off, size, hmem, hle, hin⟩ := hcovers i (by omega) hlt
            exact ⟨off, size, List.mem_append_right _ hmem, hle, hin⟩

/-- Without it the loop writes past the end or leaves the last byte out. -/
theorem bodyLoop_cut (hmax : msgLen.toNat < 2 ^ 31) (fuel : Nat) {s s' : RtmpOut} {b : Nat}
    (hb : b ≤ msgLen.toNat) (hfuel : msgLen.toNat - b < fuel) (hcurrent : s.outCurrent ≤ 4096)
    (hroom : 4096 < s.outCurrent + next.length * continuations (msgLen.toNat - b))
    (h : bodyLoop slot msgLen next fuel s b = .ok s') :
    ∃ nodes, s'.sendingBufs = s.sendingBufs ++ nodes ∧ Cut nodes msgLen.toNat := by
  induction fuel generalizing s b with
  | zero => exact absurd hfuel (Nat.not_lt_zero _)
  | succ fuel ih =>
      have hlong : 4096 < msgLen.toNat - b := by
        by_contra hlast
        have hnone : continuations (msgLen.toNat - b) = 0 := by
          unfold continuations
          omega
        rw [hnone, Nat.mul_zero] at hroom
        omega
      have hfirst : Cut [⟨.packet slot b, 4096⟩] msgLen.toNat := by
        rintro slot' off size hmem
        obtain ⟨haddr, rfl⟩ := BufferNode.mk.inj (List.mem_singleton.mp hmem)
        obtain ⟨-, rfl⟩ := Addr.packet.inj haddr
        omega
      by_cases hfull : s.outCurrent < 4096
      · rw [bodyLoop_more hmax hlong hfull] at h
        obtain ⟨s₁, hs₁, h⟩ := of_bind_ok h
        obtain ⟨hfits, hbuilt⟩ := putHeader_ok hs₁
        have hcurrent₁ : s₁.outCurrent = s.outCurrent + next.length := hbuilt.current
        have hmore : msgLen.toNat - b - 4096 = msgLen.toNat - (b + 4096) := by omega
        rw [continuations_more hlong, hmore, Nat.mul_add, Nat.mul_one] at hroom
        change s.outCurrent + _ ≤ _ at hfits
        obtain ⟨nodes, hnodes, hcut⟩ := @ih s₁ (b + 4096) (by omega) (by omega) (by omega) (by omega) h
        refine ⟨⟨.packet slot b, 4096⟩ :: ⟨.outBuffer s.outCurrent, next.length⟩ :: nodes, ?_, ?_⟩
        · rw [hnodes, hbuilt.bufs, (putBody_built s slot b 4096).bufs, List.append_assoc,
            List.append_assoc]
          rfl
        · intro slot' off size hmem
          rcases List.mem_cons.mp hmem with hhead | hmem
          · exact hfirst slot' off size (List.mem_singleton.mpr hhead)
          · rcases List.mem_cons.mp hmem with hhead | hmem
            · exact absurd (BufferNode.mk.inj hhead).1 nofun
            · exact hcut slot' off size hmem
      · rw [bodyLoop_long hmax hlong, if_pos (Nat.not_lt.mp hfull)] at h
        obtain rfl := Except.ok.inj h
        exact ⟨_, (putBody_built s slot b 4096).bufs, hfirst⟩

end Body

section Message
variable {s s' : RtmpOut} {packet : Packet} {header : RtmpMsgHeader}

theorem Built.setStream {n : Nat} {nodes : List BufferNode} (h : Built s s' n nodes) (csid : UInt32)
    (o : OutStream) : Built (s.setStream csid o) (s'.setStream csid o) n nodes where
  current := h.current
  stream := by rw [stream_setStream_eq, stream_setStream_eq, h.stream]
  queue := h.queue
  packets := h.packets
  bufs := h.bufs

theorem chunkMessage_covers (slot : Nat) (timestamp : UInt32) (fmt0 : Bool)
    (hmax : header.msgLen.toNat < 2 ^ 31)
    (hroom : s.outCurrent + (s.stream header.csId).headerNeed header timestamp fmt0 ≤ 4096) :
    ∃ s' nodes, s.chunkMessage slot header timestamp fmt0 = .ok s' ∧
      Built (s.setStream header.csId ((s.stream header.csId).after header timestamp fmt0)) s'
        ((s.stream header.csId).headerNeed header timestamp fmt0) nodes ∧
      HoldsBody nodes slot 0 header.msgLen.toNat := by
  have hafter := OutStream.record_choose (s.stream header.csId) header timestamp fmt0
  unfold OutStream.headerNeed at hroom ⊢
  unfold chunkMessage
  dsimp only at hroom ⊢
  rw [← hafter]
  generalize (s.stream header.csId).choose header timestamp fmt0 = c at *
  obtain ⟨s₁, hs₁, hbuilt₁⟩ := @putHeader_fits s (firstHeader c header) (by omega)
  have hbuilt₁' := hbuilt₁.setStream header.csId ((s.stream header.csId).record header c)
  have hcurrent : s₁.outCurrent = s.outCurrent + (firstHeader c header).length := hbuilt₁.current
  obtain ⟨s₂, nodes, hs₂, hbuilt₂, hcovers⟩ := @bodyLoop_covers slot header.msgLen
    (nextHeader header.csId c.timestamp) hmax (nextHeader_pos header.csId c.timestamp)
    (header.msgLen.toNat + 1)
    (s₁.setStream header.csId ((s.stream header.csId).record header c)) 0 (Nat.zero_le _)
    (Nat.lt_succ_self _)
    (by change s₁.outCurrent + _ ≤ _; rw [hcurrent, Nat.sub_zero]; omega)
  rw [Nat.sub_zero] at hbuilt₂
  refine ⟨s₂, _, ?_, hbuilt₁'.trans hbuilt₂, ?_⟩
  · rw [hs₁, ok_bind, ← hs₂, Nat.cast_zero]
  · intro i hi hlt
    obtain ⟨off, size, hmem, hin⟩ := hcovers i hi hlt
    exact ⟨off, size, List.mem_append_right _ hmem, hin⟩

theorem chunkMessage_cut {slot : Nat} {timestamp : UInt32} {fmt0 : Bool}
    (hmax : header.msgLen.toNat < 2 ^ 31)
    (hroom : 4096 < s.outCurrent + (s.stream header.csId).headerNeed header timestamp fmt0)
    (h : s.chunkMessage slot header timestamp fmt0 = .ok s') :
    ∃ nodes, s'.sendingBufs = s.sendingBufs ++ nodes ∧ ∀ slot,
      ¬ HoldsBody nodes slot 0 header.msgLen.toNat := by
  unfold OutStream.headerNeed at hroom
  unfold chunkMessage at h
  dsimp only at hroom h
  generalize (s.stream header.csId).choose header timestamp fmt0 = c at *
  obtain ⟨s₁, hs₁, h⟩ := of_bind_ok h
  obtain ⟨hfits, hbuilt⟩ := putHeader_ok hs₁
  have hcurrent : s₁.outCurrent = s.outCurrent + (firstHeader c header).length := hbuilt.current
  have hlong : 0 < header.msgLen.toNat := by
    by_contra hnone
    have hzero : continuations header.msgLen.toNat = 0 := by
      unfold continuations
      omega
    rw [hzero, Nat.mul_zero] at hroom
    omega
  have hcut := @bodyLoop_cut slot header.msgLen (nextHeader header.csId c.timestamp) hmax (header.msgLen.toNat + 1)
    (s₁.setStream header.csId ((s.stream header.csId).record header c)) s' 0 (Nat.zero_le _)
    (Nat.lt_succ_self _)
    (by change s₁.outCurrent ≤ _; omega) (by change _ < s₁.outCurrent + _; rw [hcurrent, Nat.sub_zero]; omega) h
  obtain ⟨nodes, hnodes, hcut⟩ := hcut
  have hall : Cut (⟨.outBuffer s.outCurrent, (firstHeader c header).length⟩ :: nodes) header.msgLen.toNat := by
    intro slot' off size hmem
    rcases List.mem_cons.mp hmem with hhead | hmem
    · exact absurd (BufferNode.mk.inj hhead).1 nofun
    · exact hcut slot' off size hmem
  refine ⟨_, ?_, fun slot' => hall.not_holdsBody hlong⟩
  rw [hnodes]
  change s₁.sendingBufs ++ nodes = _
  rw [hbuilt.bufs, List.append_assoc]
  rfl

end Message

/-! ## The batch -/

/-- `BuildChunk` returns, and if true, then with the whole body among the nodes it appended. -/
def BuildsWhole (s : RtmpOut) (packet : Packet) (s' : RtmpOut) : Prop :=
  ∃ sent nodes, s.buildChunk packet 0 false = .ok (s', sent) ∧
    s'.sendingBufs = s.sendingBufs ++ nodes ∧
    (sent = true → ∀ header, packet.ext = some header →
      HoldsBody nodes s.outSendingPackets.length 0 header.msgLen.toNat)

/-- So does every call of the loop of `Send`. -/
def SendsWhole : Nat → RtmpOut → Prop
  | 0, _ => True
  | n + 1, s =>
      match s.outWaitingQueue with
      | [] => True
      | packet :: queue => ∃ s', BuildsWhole { s with outWaitingQueue := queue } packet s' ∧ SendsWhole n s'

theorem buildsWhole_of_fits {s : RtmpOut} {packet : Packet}
    (hmax : ∀ header, packet.ext = some header → header.msgLen.toNat < 2 ^ 24)
    (hroom : s.outCurrent + OutHistory.need s.stream packet ≤ 4096) :
    ∃ s', BuildsWhole s packet s' ∧ s'.outCurrent = s.outCurrent + OutHistory.need s.stream packet ∧
      s'.stream = OutHistory.next s.stream packet ∧ s'.outWaitingQueue = s.outWaitingQueue := by
  unfold BuildsWhole OutHistory.need OutHistory.next buildChunk at *
  cases hext : packet.ext with
  | none => exact ⟨s, ⟨false, [], rfl, (List.append_nil _).symm, fun hsent => absurd hsent nofun⟩, rfl, rfl, rfl⟩
  | some header =>
      rw [hext] at hroom
      have hlen := hmax header hext
      obtain ⟨s', nodes, hs', hbuilt, hcovers⟩ :=
        chunkMessage_covers s.outSendingPackets.length 0 false (by omega) hroom
      dsimp only
      rw [hs', ok_bind]
      refine ⟨_, ⟨true, nodes, rfl, hbuilt.bufs, ?_⟩, hbuilt.current, ?_, hbuilt.queue⟩
      · rintro - header' hheader'
        obtain rfl := Option.some.inj hheader'
        exact hcovers
      · exact hbuilt.stream.trans (stream_setStream_eq s header.csId _)

theorem not_buildsWhole {s s' : RtmpOut} {packet : Packet} (hcurrent : s.outCurrent ≤ 4096)
    (hmax : ∀ header, packet.ext = some header → header.msgLen.toNat < 2 ^ 24)
    (hroom : 4096 < s.outCurrent + OutHistory.need s.stream packet) : ¬ BuildsWhole s packet s' := by
  rintro ⟨sent, nodes, hbuild, hbufs, hcovers⟩
  unfold OutHistory.need at hroom
  unfold buildChunk at hbuild
  cases hext : packet.ext with
  | none =>
      rw [hext] at hroom
      dsimp only at hroom
      omega
  | some header =>
      rw [hext] at hroom hbuild
      have hlen := hmax header hext
      obtain ⟨s₁, hs₁, hbuild⟩ := of_bind_ok hbuild
      obtain ⟨rfl, rfl⟩ := Prod.mk.inj (Except.ok.inj hbuild)
      obtain ⟨nodes', hbufs', hnot⟩ := chunkMessage_cut (by omega) hroom hs₁
      obtain rfl := List.append_cancel_left (hbufs'.symm.trans hbufs)
      exact hnot _ (hcovers rfl header hext)

/-- By induction on the batch. -/
theorem sendsWhole_iff (n : Nat) {s : RtmpOut} (hcurrent : s.outCurrent ≤ 4096)
    (hmax : ∀ packet ∈ s.outWaitingQueue.take n, ∀ header, packet.ext = some header → header.msgLen.toNat < 2 ^ 24) :
    SendsWhole n s ↔ s.outCurrent + OutHistory.needAll s.stream (s.outWaitingQueue.take n) ≤ 4096 := by
  induction n generalizing s with
  | zero => exact iff_of_true trivial hcurrent
  | succ n ih =>
      unfold SendsWhole
      cases hqueue : s.outWaitingQueue with
      | nil =>
          rw [List.take_nil]
          exact iff_of_true trivial hcurrent
      | cons packet queue =>
          rw [hqueue, List.take_succ_cons] at hmax
          rw [List.take_succ_cons, OutHistory.needAll]
          dsimp only
          have hhead := hmax packet List.mem_cons_self
          by_cases hfits : s.outCurrent + OutHistory.need s.stream packet ≤ 4096
          · obtain ⟨s₁, hwhole, hcurrent₁, hstream₁, hqueue₁⟩ :=
              @buildsWhole_of_fits { s with outWaitingQueue := queue } packet hhead hfits
            change s₁.outCurrent = s.outCurrent + OutHistory.need s.stream packet at hcurrent₁
            change s₁.outWaitingQueue = queue at hqueue₁
            have hrest := @ih s₁ (by omega) (by
              rw [hqueue₁]
              exact fun p hp => hmax p (List.mem_cons_of_mem _ hp))
            rw [hqueue₁, hstream₁, hcurrent₁, Nat.add_assoc] at hrest
            constructor
            · rintro ⟨s₂, hwhole₂, hsends⟩
              obtain ⟨sent, nodes, hbuild, -⟩ := hwhole
              obtain ⟨sent₂, nodes₂, hbuild₂, -⟩ := hwhole₂
              obtain ⟨rfl, -⟩ := Prod.mk.inj (Except.ok.inj (hbuild.symm.trans hbuild₂))
              exact hrest.mp hsends
            · exact fun hroom => ⟨s₁, hwhole, hrest.mpr hroom⟩
          · refine iff_of_false ?_ (by omega)
            rintro ⟨s₁, hwhole, -⟩
            exact @not_buildsWhole { s with outWaitingQueue := queue } s₁ packet hcurrent hhead
              (Nat.not_le.mp hfits) hwhole

theorem SendsWhole.returns {n : Nat} {s : RtmpOut} (h : SendsWhole n s) :
    ∃ s', sendLoop n s = .ok s' := by
  induction n generalizing s with
  | zero => exact ⟨s, rfl⟩
  | succ n ih =>
      unfold SendsWhole at h
      unfold sendLoop
      cases hqueue : s.outWaitingQueue with
      | nil => exact ⟨s, rfl⟩
      | cons packet queue =>
          rw [hqueue] at h
          obtain ⟨s₁, ⟨sent, nodes, hbuild, -⟩, hrest⟩ := h
          dsimp only
          rw [hbuild, ok_bind]
          exact ih hrest

/-- `Send` stays inside `out_buffer_` and hands on every body whole exactly where the headers of its batch fit. -/
theorem sendLoop_whole_iff {s : RtmpOut} (hcurrent : s.outCurrent ≤ 4096)
    (hmax : ∀ packet ∈ s.outWaitingQueue.take 10, ∀ header, packet.ext = some header →
      header.msgLen.toNat < 2 ^ 24) :
    ((∃ s', sendLoop 10 s = .ok s') ∧ SendsWhole 10 s) ↔
      s.outCurrent + OutHistory.needAll s.stream (s.outWaitingQueue.take 10) ≤ 4096 := by
  rw [← sendsWhole_iff 10 hcurrent hmax]
  exact ⟨fun h => h.2, fun h => ⟨h.returns, h⟩⟩

theorem sendLoop_whole_iff_audio :
    ((∃ s', sendLoop 10 { outWaitingQueue := [audioPacket] } = .ok s') ∧
        SendsWhole 10 { outWaitingQueue := [audioPacket] }) ↔
      0 + OutHistory.needAll ({ outWaitingQueue := [audioPacket] } : RtmpOut).stream [audioPacket] ≤ 4096 := by
  refine @sendLoop_whole_iff { outWaitingQueue := [audioPacket] } (Nat.zero_le _) ?_
  intro packet hmem header hext
  obtain rfl := List.mem_singleton.mp hmem
  obtain rfl := Option.some.inj hext
  decide

/-- The longest message there can be, on chunk stream 3: 12 bytes and 4095 more of headers. -/
def longestPacket : Packet where
  capacity := 0xFFFFFF
  data := List.replicate 0xFFFFFF 0
  ext := some { csId := 3, msgLen := 0xFFFFFF, msgType := 9 }

theorem longestPacket_cut : ¬ ∀ s : RtmpOut, s.outCurrent = 0 →
    (∀ packet ∈ s.outWaitingQueue.take 10, ∀ header, packet.ext = some header → header.msgLen.toNat < 2 ^ 24) →
    (∃ s', sendLoop 10 s = .ok s') ∧ SendsWhole 10 s := by
  intro hclaim
  have hmax : ∀ packet ∈ [longestPacket], ∀ header, packet.ext = some header →
      header.msgLen.toNat < 2 ^ 24 := by
    intro packet hmem header hext
    obtain rfl := List.mem_singleton.mp hmem
    obtain rfl := Option.some.inj hext
    decide
  have hwhole := (hclaim { outWaitingQueue := [longestPacket] } rfl hmax).2
  have hroom := (@sendsWhole_iff 10 { outWaitingQueue := [longestPacket] } (Nat.zero_le _) hmax).mp hwhole
  exact absurd hroom (by decide)

end RtmpOut
end TmmsServer
