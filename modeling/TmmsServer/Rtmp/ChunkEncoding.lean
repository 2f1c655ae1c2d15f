import Mathlib.Data.List.Forall2
import TmmsServer.Rtmp.ChunkWriter

/-!
# What the chunk builder puts on the wire

The encoding of a message as a byte string, and the proof that the nodes built
for it point to exactly these bytes as long as its headers fit `out_buffer_`.
-/
namespace TmmsServer
open Lib.Words

/-- The number of continuation chunks of a body of `n` bytes. -/
def continuations (n : Nat) : Nat := (n - 1) / 4096

/-- A body cut into chunks, `next` before every chunk but the first. -/
def chunkedBody (next body : List UInt8) : List UInt8 :=
  if body.length ≤ 4096 then body
  else body.take 4096 ++ (next ++ chunkedBody next (body.drop 4096))
termination_by body.length
decreasing_by rw [List.length_drop]; omega

theorem chunkedBody_short {next body : List UInt8} (h : body.length ≤ 4096) :
    chunkedBody next body = body := by
  rw [chunkedBody, if_pos h]

theorem chunkedBody_long {next body : List UInt8} (h : 4096 < body.length) :
    chunkedBody next body = body.take 4096 ++ (next ++ chunkedBody next (body.drop 4096)) := by
  rw [chunkedBody, if_neg (Nat.not_le.mpr h)]

theorem chunkedBody_length (next body : List UInt8) :
    (chunkedBody next body).length = next.length * continuations body.length + body.length := by
  induction hn : body.length using Nat.strongRecOn generalizing body with
  | ind n ih =>
      by_cases h : body.length ≤ 4096
      · have hnone : continuations n = 0 := by unfold continuations; omega
        rw [chunkedBody_short h, hnone, hn]
        omega
      · have hdrop : (body.drop 4096).length = body.length - 4096 := List.length_drop
        have hcount : continuations n = continuations (body.drop 4096).length + 1 := by
          unfold continuations
          omega
        have hrest := ih (body.drop 4096).length (by omega) _ rfl
        rw [chunkedBody_long (by omega), List.length_append, List.length_append, hrest, hcount,
          List.length_take, Nat.mul_add]
        omega

namespace OutStream

/-- The encoding of a message. -/
def encode (o : OutStream) (header : RtmpMsgHeader) (body : List UInt8) (timestamp : UInt32)
    (fmt0 : Bool) : List UInt8 :=
  let c := o.choose header timestamp fmt0
  firstHeader c header ++ chunkedBody (nextHeader header.csId c.timestamp) body

/-- The bytes of `out_buffer_` a message needs. -/
def headerNeed (o : OutStream) (header : RtmpMsgHeader) (timestamp : UInt32) (fmt0 : Bool) : Nat :=
  let c := o.choose header timestamp fmt0
  (firstHeader c header).length +
    (nextHeader header.csId c.timestamp).length * continuations header.msgLen.toNat

theorem encode_length (o : OutStream) {header : RtmpMsgHeader} {body : List UInt8}
    (timestamp : UInt32) (fmt0 : Bool) (hlen : header.msgLen.toNat = body.length) :
    (o.encode header body timestamp fmt0).length = o.headerNeed header timestamp fmt0 + body.length := by
  unfold encode headerNeed
  dsimp only
  rw [List.length_append, chunkedBody_length, hlen, Nat.add_assoc]

/-- What the sender remembers after a message. -/
def after (o : OutStream) (header : RtmpMsgHeader) (timestamp : UInt32) (fmt0 : Bool) : OutStream :=
  let c := o.choose header timestamp fmt0
  ⟨some { header with timestamp }, if c.fmt = .fmt0 then 0 else c.timestamp⟩

/-- The choice, written out: the full header, or a difference that gives the timestamp back. -/
theorem choose_cases (o : OutStream) (header : RtmpMsgHeader) (timestamp : UInt32) (fmt0 : Bool) :
    o.choose header timestamp fmt0 = ⟨.fmt0, timestamp⟩ ∨
      ∃ prev fmt, o.header = some prev ∧ fmt ≠ .fmt0 ∧ prev.timestamp ≤ timestamp ∧
        header.msgSid = prev.msgSid ∧
        (fmt ≠ .fmt1 → header.msgLen = prev.msgLen ∧ header.msgType = prev.msgType) ∧
        (fmt = .fmt3 → timestamp - prev.timestamp = o.delta) ∧
        o.choose header timestamp fmt0 = ⟨fmt, timestamp - prev.timestamp⟩ := by
  unfold choose
  cases o.header with
  | none => exact .inl rfl
  | some prev =>
      dsimp only
      by_cases huse : fmt0 = false ∧ prev.timestamp ≤ timestamp ∧ header.msgSid = prev.msgSid
      · rw [if_pos huse]
        right
        by_cases hsame : header.msgLen = prev.msgLen ∧ header.msgType = prev.msgType
        · rw [if_pos hsame]
          by_cases hdelta : timestamp - prev.timestamp = o.delta
          · exact ⟨prev, .fmt3, rfl, nofun, huse.2.1, huse.2.2, fun _ => hsame, fun _ => hdelta, if_pos hdelta⟩
          · exact ⟨prev, .fmt2, rfl, nofun, huse.2.1, huse.2.2, fun _ => hsame, nofun, if_neg hdelta⟩
        · rw [if_neg hsame]
          exact ⟨prev, .fmt1, rfl, nofun, huse.2.1, huse.2.2, fun h => absurd rfl h, nofun, rfl⟩
      · exact .inl (if_neg huse)

/-- The maps remember the message's own timestamp, whichever format was chosen. -/
theorem record_choose (o : OutStream) (header : RtmpMsgHeader) (timestamp : UInt32) (fmt0 : Bool) :
    o.record header (o.choose header timestamp fmt0) =
      o.after header timestamp fmt0 := by
  unfold record after
  rcases o.choose_cases header timestamp fmt0 with hc | ⟨prev, fmt, hprev, hfmt, -, -, -, hdelta, hc⟩
  · rw [hc]
    rfl
  · have hsum : prev.timestamp + (timestamp - prev.timestamp) = timestamp := by grind
    rw [hc, hprev]
    dsimp only
    rw [if_neg hfmt, if_neg hfmt, Option.getD_some, hsum]
    cases fmt with
    | fmt0 => exact absurd rfl hfmt
    | fmt1 => rfl
    | fmt2 => rfl
    | fmt3 => rw [hdelta rfl]

end OutStream

theorem basicHeaderBytes_pos (fmt : RtmpFmt) (csId : UInt32) :
    0 < (basicHeaderBytes fmt csId).length := by
  unfold basicHeaderBytes
  split
  · exact Nat.zero_lt_one
  · split
    · exact Nat.zero_lt_two
    · exact Nat.zero_lt_succ _

theorem nextHeader_pos (csId timestamp : UInt32) : 0 < (nextHeader csId timestamp).length := by
  have hpos := basicHeaderBytes_pos .fmt3 csId
  rw [nextHeader, List.length_append]
  omega

namespace OutBuffer

theorem write_ok {b : OutBuffer} {off : Nat} {bs : List UInt8} (h : off + bs.length ≤ 4096) :
    ∃ b', b.write off bs = .ok b' ∧ readBytes b'.bytes off bs.length = .ok bs ∧
      ∀ o n, o + n ≤ off → readBytes b'.bytes o n = readBytes b.bytes o n := by
  have hsize := b.size_eq
  have htake : (b.bytes.take off).length = off := by rw [List.length_take]; omega
  refine ⟨_, dif_pos h, readBytes_at htake rfl, fun o n hle => ?_⟩
  dsimp only
  rw [readBytes_append _ (by omega)]
  conv => rhs; rw [← List.take_append_drop off b.bytes]
  rw [readBytes_append _ (by omega)]

end OutBuffer

namespace RtmpOut

/-- A node that points to `bs`, and if into `out_buffer_`, then before `out_current_`. -/
def Holds (s : RtmpOut) (node : BufferNode) (bs : List UInt8) : Prop :=
  s.nodeBytes node = .ok bs ∧ ∀ off, node.addr = .outBuffer off → off + node.size ≤ s.outCurrent

/-- The nodes of `sending_bufs_` point to pieces of `w`, in order. -/
def Lays (s : RtmpOut) (w : List UInt8) : Prop :=
  ∃ pieces, List.Forall₂ s.Holds s.sendingBufs pieces ∧ pieces.flatten = w

theorem nodeBytes_packet (s : RtmpOut) (slot off size : Nat) :
    s.nodeBytes ⟨.packet slot off, size⟩ =
      match s.outSendingPackets[slot]? with
      | some packet => readBytes packet.data off size
      | none => .error .outOfBounds := rfl

theorem mapM_of_forall₂ {s : RtmpOut} {nodes : List BufferNode} {pieces : List (List UInt8)}
    (h : List.Forall₂ s.Holds nodes pieces) : nodes.mapM s.nodeBytes = .ok pieces := by
  induction h with
  | nil => rfl
  | cons hhead _ ih => rw [List.mapM_cons, hhead.1, ih]; rfl

theorem sendingBytes_of_lays {s : RtmpOut} {w : List UInt8} (h : s.Lays w) :
    s.sendingBytes = .ok w := by
  obtain ⟨pieces, hp, rfl⟩ := h
  rw [sendingBytes, mapM_of_forall₂ hp]
  rfl

/-- Building went on from `s` to `s'`: `n` more bytes of headers, `w` more bytes on the wire. -/
structure Grows (s s' : RtmpOut) (n : Nat) (w : List UInt8) : Prop where
  current : s'.outCurrent = s.outCurrent + n
  deltas : s'.outDeltas = s.outDeltas
  headers : s'.outMessageHeaders = s.outMessageHeaders
  queue : s'.outWaitingQueue = s.outWaitingQueue
  packets : s'.outSendingPackets = s.outSendingPackets
  sending : s'.sending = s.sending
  lays : ∀ w₀, s.Lays w₀ → s'.Lays (w₀ ++ w)

theorem Grows.trans {s s₁ s₂ : RtmpOut} {n m : Nat} {w v : List UInt8} (h : Grows s s₁ n w)
    (h' : Grows s₁ s₂ m v) : Grows s s₂ (n + m) (w ++ v) where
  current := by rw [h'.current, h.current, Nat.add_assoc]
  deltas := h'.deltas.trans h.deltas
  headers := h'.headers.trans h.headers
  queue := h'.queue.trans h.queue
  packets := h'.packets.trans h.packets
  sending := h'.sending.trans h.sending
  lays w₀ hw := by
    rw [← List.append_assoc]
    exact h'.lays _ (h.lays _ hw)

theorem putHeader_grows (s : RtmpOut) (bs : List UInt8) (h : s.outCurrent + bs.length ≤ 4096) :
    ∃ s', s.putHeader bs = .ok s' ∧ Grows s s' bs.length bs := by
  obtain ⟨b', hb, hnew, hold⟩ := OutBuffer.write_ok (b := s.outBuffer) h
  refine ⟨{ s with
    outBuffer := b'
    outCurrent := s.outCurrent + bs.length
    sendingBufs := s.sendingBufs ++ [⟨.outBuffer s.outCurrent, bs.length⟩] },
    by rw [putHeader, hb]; rfl, rfl, rfl, rfl, rfl, rfl, rfl, ?_⟩
  rintro w₀ ⟨pieces, hp, rfl⟩
  refine ⟨pieces ++ [bs], List.rel_append (hp.imp ?_) (.cons ⟨hnew, ?_⟩ .nil), by simp⟩
  · rintro ⟨addr, size⟩ piece ⟨hnode, hbelow⟩
    cases addr with
    | outBuffer off =>
        have hle := hbelow off rfl
        refine ⟨(hold off size hle).trans hnode, fun off' hoff => ?_⟩
        have := hbelow off' hoff
        dsimp only at this ⊢
        omega
    | packet slot off => exact ⟨hnode, nofun⟩
  · rintro off ⟨rfl⟩
    exact Nat.le_refl _

theorem putBody_grows {s : RtmpOut} {slot off size : Nat} {packet : Packet}
    (hp : s.outSendingPackets[slot]? = some packet) (h : off + size ≤ packet.data.length) :
    Grows s (s.putBody slot off size) 0 ((packet.data.drop off).take size) := by
  refine ⟨rfl, rfl, rfl, rfl, rfl, rfl, ?_⟩
  rintro w₀ ⟨pieces, hw, rfl⟩
  refine ⟨pieces ++ [(packet.data.drop off).take size], List.rel_append (hw.imp ?_) (.cons ⟨?_, nofun⟩ .nil),
    by simp⟩
  · rintro node piece ⟨hnode, hbelow⟩
    exact ⟨hnode, hbelow⟩
  · change s.nodeBytes ⟨.packet slot off, size⟩ = _
    rw [nodeBytes_packet, hp]
    exact readBytes_of_le h

theorem bodyLoop_last {slot : Nat} {msgLen : UInt32} {next : List UInt8} {fuel : Nat} {s : RtmpOut}
    {b : Nat} (hmax : msgLen.toNat < 2 ^ 31) (hb : b ≤ msgLen.toNat) (h : msgLen.toNat - b ≤ 4096) :
    bodyLoop slot msgLen next (fuel + 1) s b = .ok (s.putBody slot b (msgLen.toNat - b)) := by
  have hint : int32 (msgLen.toNat - (b : Int)) = (msgLen.toNat - b : Nat) := by
    rw [int32_of_lt (by omega) (by omega)]
    omega
  have hsize : min ((msgLen.toNat - b : Nat) : Int) outChunkSize = (msgLen.toNat - b : Nat) := by
    unfold outChunkSize
    omega
  have hword : ((msgLen.toNat - b : Nat) % 2 ^ 64 : Int).toNat = msgLen.toNat - b := by omega
  have hend : uint32 (int32 (b + (msgLen.toNat - b : Nat))) = msgLen.toNat := by
    rw [int32_of_lt (by omega) (by omega), uint32_of_lt (by omega) (by omega)]
    omega
  simp only [bodyLoop, hint]
  rw [hsize, hword, hend, if_neg (Nat.lt_irrefl _), Int.toNat_natCast]

/-- A pass of the loop over the body that leaves something of it. -/
theorem bodyLoop_long {slot : Nat} {msgLen : UInt32} {next : List UInt8} {fuel : Nat} {s : RtmpOut}
    {b : Nat} (hmax : msgLen.toNat < 2 ^ 31) (h : 4096 < msgLen.toNat - b) :
    bodyLoop slot msgLen next (fuel + 1) s b =
      if 4096 ≤ s.outCurrent then .ok (s.putBody slot b 4096)
      else (s.putBody slot b 4096).putHeader next >>= fun s =>
        bodyLoop slot msgLen next fuel s (b + 4096 : Nat) := by
  have hint : int32 (msgLen.toNat - (b : Int)) = (msgLen.toNat - b : Nat) := by
    rw [int32_of_lt (by omega) (by omega)]
    omega
  have hsize : min ((msgLen.toNat - b : Nat) : Int) outChunkSize = 4096 := by
    unfold outChunkSize
    omega
  have hcast : int32 ((b : Int) + 4096) = (b + 4096 : Nat) := by
    rw [int32_of_lt (by omega) (by omega)]
    omega
  have hmore : uint32 ((b + 4096 : Nat) : Int) < msgLen.toNat := by
    rw [uint32_of_lt (by omega) (by omega)]
    omega
  have hword : ((4096 : Int) % 2 ^ 64).toNat = 4096 := by decide
  simp only [bodyLoop, hint]
  rw [hsize, hword, hcast, if_pos hmore, Int.toNat_natCast]
  rfl

theorem bodyLoop_more {slot : Nat} {msgLen : UInt32} {next : List UInt8} {fuel : Nat} {s : RtmpOut} {b : Nat}
    (hmax : msgLen.toNat < 2 ^ 31) (h : 4096 < msgLen.toNat - b) (hroom : s.outCurrent < 4096) :
    bodyLoop slot msgLen next (fuel + 1) s b =
      ((s.putBody slot b 4096).putHeader next >>= fun s =>
        bodyLoop slot msgLen next fuel s (b + 4096 : Nat)) := by
  rw [bodyLoop_long hmax h, if_neg (Nat.not_le.mpr hroom)]

/-- The loop over the body lays down the chunks of what is left of it. -/
theorem bodyLoop_grows {slot : Nat} {msgLen : UInt32} {next : List UInt8} {packet : Packet}
    (hlen : msgLen.toNat = packet.data.length) (hmax : msgLen.toNat < 2 ^ 31) (hnext : 0 < next.length)
    (fuel : Nat) (s : RtmpOut) (b : Nat) (hp : s.outSendingPackets[slot]? = some packet)
    (hb : b ≤ msgLen.toNat) (hf : msgLen.toNat - b < fuel)
    (hroom : s.outCurrent + next.length * continuations (msgLen.toNat - b) ≤ 4096) :
    ∃ s', bodyLoop slot msgLen next fuel s b = .ok s' ∧
      Grows s s' (next.length * continuations (msgLen.toNat - b)) (chunkedBody next (packet.data.drop b)) := by
  induction fuel generalizing s b with
  | zero => exact absurd hf (Nat.not_lt_zero _)
  | succ fuel ih =>
      have hdrop : (packet.data.drop b).length = packet.data.length - b := List.length_drop
      by_cases hlast : msgLen.toNat - b ≤ 4096
      · have hnone : continuations (msgLen.toNat - b) = 0 := by unfold continuations; omega
        have hgrow := putBody_grows (s := s) hp (by omega : b + (msgLen.toNat - b) ≤ packet.data.length)
        rw [List.take_of_length_le (by omega)] at hgrow
        rw [hnone, chunkedBody_short (by omega)]
        exact ⟨_, bodyLoop_last hmax hb hlast, hgrow⟩
      · have hcount : continuations (msgLen.toNat - b) =
            continuations (msgLen.toNat - (b + 4096)) + 1 := by
          unfold continuations
          omega
        rw [hcount, Nat.mul_add, Nat.mul_one] at hroom
        have hput := putBody_grows (s := s) hp (by omega : b + 4096 ≤ packet.data.length)
        obtain ⟨s₁, hs₁, hgrow₁⟩ := putHeader_grows (s.putBody slot b 4096) next
          (by rw [hput.current]; omega)
        obtain ⟨s₂, hs₂, hgrow₂⟩ := ih s₁ (b + 4096) (by rw [hgrow₁.packets, hput.packets, hp]) (by omega)
          (by omega) (by rw [hgrow₁.current, hput.current]; omega)
        refine ⟨s₂, ?_, ?_⟩
        · rw [bodyLoop_more hmax (by omega) (by omega), hs₁, ok_bind, hs₂]
        · have htotal := (hput.trans hgrow₁).trans hgrow₂
          rw [Nat.zero_add, List.append_assoc] at htotal
          rw [chunkedBody_long (by omega), List.drop_drop, hcount, Nat.mul_add, Nat.mul_one,
            Nat.add_comm]
          exact htotal

theorem Grows.setStream {s s' : RtmpOut} {n : Nat} {w : List UInt8} (h : Grows s s' n w)
    (csid : UInt32) (o : OutStream) : Grows (s.setStream csid o) (s'.setStream csid o) n w where
  current := h.current
  deltas := by simp only [RtmpOut.setStream, h.deltas]
  headers := by simp only [RtmpOut.setStream, h.headers]
  queue := h.queue
  packets := h.packets
  sending := h.sending
  lays := h.lays

/-- The shared part of the two overloads lays down the encoding of the message. -/
theorem chunkMessage_grows {s : RtmpOut} {slot : Nat} {packet : Packet} {header : RtmpMsgHeader}
    (timestamp : UInt32) (fmt0 : Bool) (hp : s.outSendingPackets[slot]? = some packet)
    (hlen : header.msgLen.toNat = packet.data.length) (hmax : header.msgLen.toNat < 2 ^ 31)
    (hroom : s.outCurrent + (s.stream header.csId).headerNeed header timestamp fmt0 ≤ 4096) :
    ∃ s', s.chunkMessage slot header timestamp fmt0 = .ok s' ∧
      Grows (s.setStream header.csId ((s.stream header.csId).after header timestamp fmt0)) s'
        ((s.stream header.csId).headerNeed header timestamp fmt0)
        ((s.stream header.csId).encode header packet.data timestamp fmt0) := by
  have hafter := OutStream.record_choose (s.stream header.csId) header timestamp fmt0
  unfold OutStream.headerNeed at hroom ⊢
  unfold OutStream.encode chunkMessage
  dsimp only at hroom ⊢
  rw [← hafter]
  generalize (s.stream header.csId).choose header timestamp fmt0 = c at *
  obtain ⟨s₁, hs₁, hgrow₁⟩ := putHeader_grows s (firstHeader c header) (by omega)
  have hgrow₁' := hgrow₁.setStream header.csId ((s.stream header.csId).record header c)
  obtain ⟨s₂, hs₂, hgrow₂⟩ := bodyLoop_grows hlen hmax (nextHeader_pos header.csId c.timestamp)
    (header.msgLen.toNat + 1) (s₁.setStream header.csId ((s.stream header.csId).record header c)) 0
    (by rw [hgrow₁'.packets]; exact hp) (Nat.zero_le _) (by omega)
    (by rw [hgrow₁'.current]; exact (Nat.add_assoc _ _ _).trans_le hroom)
  rw [List.drop_zero, Nat.sub_zero] at hgrow₂
  refine ⟨s₂, ?_, hgrow₁'.trans hgrow₂⟩
  rw [hs₁, ok_bind, ← hs₂, Nat.cast_zero]

/-- `out_sending_packets_` keeps one more packet. -/
def keep (s : RtmpOut) (packet : Packet) : RtmpOut :=
  { s with outSendingPackets := s.outSendingPackets ++ [packet] }

theorem keep_lays {s : RtmpOut} {w : List UInt8} (packet : Packet) (h : s.Lays w) :
    (s.keep packet).Lays w := by
  obtain ⟨pieces, hp, hw⟩ := h
  refine ⟨pieces, hp.imp ?_, hw⟩
  rintro ⟨addr, size⟩ bs ⟨hnode, hbelow⟩
  refine ⟨?_, hbelow⟩
  cases addr with
  | outBuffer off => exact hnode
  | packet slot off =>
      rw [nodeBytes_packet] at hnode ⊢
      cases hs : s.outSendingPackets[slot]? with
      | none => rw [hs] at hnode; cases hnode
      | some old =>
          have hlt : slot < s.outSendingPackets.length := (List.getElem?_eq_some_iff.mp hs).1
          have hkeep : (s.keep packet).outSendingPackets[slot]? = some old := by
            rw [← hs]
            exact List.getElem?_append_left hlt
          rw [hs] at hnode
          rw [hkeep]
          exact hnode

theorem putHeader_keep (s : RtmpOut) (packet : Packet) (bs : List UInt8) :
    (s.keep packet).putHeader bs = (s.putHeader bs).map fun s => s.keep packet := by
  unfold putHeader keep
  dsimp only
  cases s.outBuffer.write s.outCurrent bs <;> rfl

theorem bodyLoop_keep (slot : Nat) (msgLen : UInt32) (next : List UInt8) (packet : Packet)
    (fuel : Nat) (s : RtmpOut) (b : Int) : bodyLoop slot msgLen next fuel (s.keep packet) b =
      (bodyLoop slot msgLen next fuel s b).map fun s => s.keep packet := by
  induction fuel generalizing s b with
  | zero => rfl
  | succ fuel ih =>
      have hput : ∀ off size, (s.keep packet).putBody slot off size =
          (s.putBody slot off size).keep packet :=
        fun _ _ => rfl
      simp only [bodyLoop, hput, putHeader_keep]
      split
      · change (if 4096 ≤ s.outCurrent then _ else _) =
            Except.map _ (if 4096 ≤ s.outCurrent then _ else _)
        split
        · rfl
        · cases (s.putBody slot b.toNat (min (int32 (msgLen.toNat - b)) outChunkSize % 2 ^ 64).toNat).putHeader
              next with
          | error e => rfl
          | ok s' => exact ih s' _
      · rfl

theorem chunkMessage_keep (s : RtmpOut) (slot : Nat) (packet : Packet) (header : RtmpMsgHeader)
    (timestamp : UInt32) (fmt0 : Bool) : (s.keep packet).chunkMessage slot header timestamp fmt0 =
      (s.chunkMessage slot header timestamp fmt0).map fun s => s.keep packet := by
  have hstream : (s.keep packet).stream header.csId = s.stream header.csId := rfl
  unfold chunkMessage
  dsimp only
  rw [hstream, putHeader_keep]
  cases s.putHeader (firstHeader ((s.stream header.csId).choose header timestamp fmt0) header) with
  | error e => rw [map_error, error_bind, map_error]
  | ok s' =>
      rw [map_ok, ok_bind, ok_bind]
      exact bodyLoop_keep slot header.msgLen _ packet _ (s'.setStream header.csId _) 0

/-- When the packet joins the kept ones makes no difference to the caller. -/
theorem buildChunk_eq_shared (s : RtmpOut) (packet : Packet) (timestamp : UInt32) (fmt0 : Bool) :
    s.buildChunk packet timestamp fmt0 = s.buildChunkShared packet timestamp fmt0 := by
  unfold buildChunk buildChunkShared
  cases packet.ext with
  | none => rfl
  | some header =>
      have hkeep := chunkMessage_keep s s.outSendingPackets.length packet header timestamp fmt0
      unfold keep at hkeep
      dsimp only
      rw [hkeep]
      cases s.chunkMessage s.outSendingPackets.length header timestamp fmt0 <;> rfl

/-- Building a message whose headers fit lays down its encoding. -/
theorem buildChunk_grows {s : RtmpOut} {packet : Packet} {header : RtmpMsgHeader}
    (timestamp : UInt32)
    (fmt0 : Bool) (hx : packet.ext = some header) (hlen : header.msgLen.toNat = packet.data.length)
    (hmax : header.msgLen.toNat < 2 ^ 31)
    (hroom : s.outCurrent + (s.stream header.csId).headerNeed header timestamp fmt0 ≤ 4096) :
    ∃ s', s.buildChunk packet timestamp fmt0 = .ok (s', true) ∧
      Grows ((s.keep packet).setStream header.csId ((s.stream header.csId).after header timestamp fmt0)) s'
        ((s.stream header.csId).headerNeed header timestamp fmt0)
        ((s.stream header.csId).encode header packet.data timestamp fmt0) := by
  have hslot : (s.keep packet).outSendingPackets[s.outSendingPackets.length]? = some packet :=
    List.getElem?_concat_length
  obtain ⟨s', hs', hgrow⟩ := chunkMessage_grows (s := s.keep packet) timestamp fmt0 hslot hlen hmax hroom
  refine ⟨s', ?_, hgrow⟩
  rw [buildChunk_eq_shared]
  unfold buildChunkShared
  rw [hx]
  dsimp only
  unfold keep at hs'
  rw [hs']
  rfl

end RtmpOut
end TmmsServer
