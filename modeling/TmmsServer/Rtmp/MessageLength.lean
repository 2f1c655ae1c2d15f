import TmmsServer.Rtmp.ChunkPasses

/-!
# The length of a completed message

The room of a packet is fixed by its first chunk; its header follows every later
one. The two agree as long as the headers that declare a length do.
-/
namespace TmmsServer
open Lib.Words Lib.Feed BytesReader

/-- The length a chunk that is taken at this head declares for a chunk stream. -/
def LoopHead.declares (h : LoopHead) (csid : UInt32) : Option UInt32 :=
  match h.attempt, h.chunk with
  | .take _ _ _, some b => if b.csId = csid then declaredLength b.fmt (h.fields b) else none
  | _, _ => none

/-- The length in the last header of format 0 or 1 that came in on a stream, 0 where none came. -/
def lastDeclared (heads : List LoopHead) (csid : UInt32) : UInt32 :=
  heads.foldl (fun len h => (h.declares csid).getD len) 0

/-- A length declared while a packet is open is that of the packet, and no packet is opened with a
length that is only guessed. -/
def LoopHead.Consistent (h : LoopHead) : Prop := ∀ b, h.chunk = some b →
  match (h.stream b).packet with
  | some packet => ∀ len, declaredLength b.fmt (h.fields b) = some len → packet.capacity = len.toNat
  | none => declaredLength b.fmt (h.fields b) = none → (h.prev b).msgLen = 0 → h.context.inChunkSize = 0

theorem lastDeclared_concat (past : List LoopHead) (h : LoopHead) (csid : UInt32) :
    lastDeclared (past ++ [h]) csid = (h.declares csid).getD (lastDeclared past csid) := by
  rw [lastDeclared, List.foldl_append]
  rfl

section Front
variable {u v : List UInt8} {n : Nat} {b b' : BasicHeader}

theorem readUint8T_longer {off : Nat} {x : UInt8} (h : readUint8T u off = .ok x) :
    readUint8T (u ++ v) off = .ok x := by
  have hread := h
  unfold readUint8T at hread
  obtain ⟨bytes, hbytes, -⟩ := of_bind_ok hread
  rw [readUint8T_append v (readBytes_ok hbytes).1, h]

/-- A basic header that is there does not change with what comes behind it. -/
theorem basicHeader_longer (h : basicHeader u n = .ok (some b)) :
    basicHeader (u ++ v) 3 = .ok (some b) := by
  unfold basicHeader at h ⊢
  obtain ⟨b₀, hread, h⟩ := of_bind_ok h
  rw [readUint8T_longer hread, ok_bind]
  dsimp only at h ⊢
  split at h
  next h0 =>
    rw [if_pos h0]
    split at h
    · exact absurd (Except.ok.inj h) nofun
    · obtain ⟨b₁, hread₁, h⟩ := of_bind_ok h
      rw [if_neg (by decide), readUint8T_longer hread₁]
      exact h
  next h0 =>
    rw [if_neg h0]
    split at h
    next h1 =>
      rw [if_pos h1]
      split at h
      · exact absurd (Except.ok.inj h) nofun
      · obtain ⟨b₁, hread₁, h⟩ := of_bind_ok h
        obtain ⟨b₂, hread₂, h⟩ := of_bind_ok h
        rw [if_neg (by decide), readUint8T_longer hread₁, ok_bind, readUint8T_longer hread₂]
        exact h
    next h1 =>
      rw [if_neg h1]
      exact h

theorem declaredLength_longer {fmt : RtmpFmt} {len : UInt32} (h : declaredLength fmt u = some len) :
    declaredLength fmt (u ++ v) = some len := by
  unfold declaredLength at h ⊢
  split at h
  next hfmt =>
    have hread := ok_of_toOption h
    have hinside := hread
    unfold readUint24T at hinside
    obtain ⟨bytes, hbytes, -⟩ := of_bind_ok hinside
    rw [if_pos hfmt, readUint24T_append v (readBytes_ok hbytes).1, hread]
    rfl
  next => exact absurd h nofun

end Front

/-- The bytes begin with a header that declares this length for the stream. -/
def Fronts (u : List UInt8) (csid : UInt32) (len : Nat) : Prop :=
  ∃ b declared, basicHeader u 3 = .ok (some b) ∧ b.csId = csid ∧
    declaredLength b.fmt (u.drop b.parsed) = some declared ∧ declared.toNat = len

theorem Fronts.append {u : List UInt8} {csid : UInt32} {len : Nat} (h : Fronts u csid len)
    (v : List UInt8) : Fronts (u ++ v) csid len := by
  obtain ⟨b, declared, hb, hcsid, hdeclared, hlen⟩ := h
  refine ⟨b, declared, basicHeader_longer hb, hcsid, ?_, hlen⟩
  rw [List.drop_append]
  exact declaredLength_longer hdeclared

theorem newPacket_capacity {len : UInt32} {packet : Packet}
    (h : Packet.newPacket (int32 len.toNat) = .ok packet) : packet.capacity = len.toNat := by
  have hlt := len.toNat_lt
  have hsize := newPacket_size h
  unfold int32 at hsize
  rw [Int.bmod_def] at hsize
  omega

theorem completed_stream (s : RtmpIn) (done : Option Packet) (csid : UInt32) :
    (done.elim s s.messageComplete).stream csid = s.stream csid := by
  cases done with
  | none => rfl
  | some done => exact RtmpIn.messageComplete_stream s done csid

namespace LoopHead
variable {h : LoopHead} {b : BasicHeader} {packet : Packet} {header : RtmpMsgHeader}

theorem chunk_front (hb : h.chunk = some b) : basicHeader h.unread 3 = .ok (some b) := by
  have hfront : basicHeader (h.unread ++ []) 3 = .ok (some b) := basicHeader_longer (chunk_basic hb)
  rwa [List.append_nil] at hfront

/-- The length a receiver knows for a chunk stream. -/
def known (h : LoopHead) (csid : UInt32) : UInt32 := ((h.context.stream csid).header.getD {}).msgLen

/-- Every open packet has the length known for its stream, or one its chunk in front declares anew. -/
def Settled (h : LoopHead) : Prop := ∀ csid packet, (h.context.stream csid).packet = some packet →
  packet.capacity = (h.known csid).toNat ∨ Fronts h.unread csid packet.capacity

/-- The packet of a pass has the length of its header. -/
theorem Pass.capacity (hp : h.Pass b packet header) (hsettled : h.Settled) (hok : h.Consistent) :
    packet.capacity = header.msgLen.toNat := by
  have hlength := (openPacket_length hp.opened).2
  have hconsistent := hok b hp.chunk
  rw [hp.length]
  cases hpacket : (h.stream b).packet with
  | some open' =>
      rw [hpacket] at hlength hconsistent
      obtain rfl : packet = open' := hlength
      cases hdeclared : declaredLength b.fmt (h.fields b) with
      | some len => exact hconsistent len hdeclared
      | none =>
          rcases hsettled b.csId packet hpacket with hknown | ⟨b', declared, hb', -, hlen, -⟩
          · exact hknown
          · rw [chunk_front hp.chunk] at hb'
            obtain rfl := Option.some.inj (Except.ok.inj hb')
            exact absurd (hdeclared.symm.trans hlen) nofun
  | none =>
      rw [hpacket] at hlength hconsistent
      rw [newPacket_capacity hlength.1, chunkLength]
      cases hdeclared : declaredLength b.fmt (h.fields b) with
      | some len => rfl
      | none =>
          change (if (h.prev b).msgLen = 0 then _ else (h.prev b).msgLen).toNat =
              (h.prev b).msgLen.toNat
          by_cases hzero : (h.prev b).msgLen = 0
          · rw [if_pos hzero, hconsistent hdeclared hzero, hzero]
            rfl
          · rw [if_neg hzero]

theorem Settled.other (hsettled : h.Settled) (hb : h.chunk = some b) {csid : UInt32}
    (hcsid : csid ≠ b.csId)
    (hpacket : (h.context.stream csid).packet = some packet) :
    packet.capacity = (h.known csid).toNat := by
  rcases hsettled csid packet hpacket with hknown | ⟨b', declared, hb', hcsid', -⟩
  · exact hknown
  · rw [chunk_front hb] at hb'
    obtain rfl := Option.some.inj (Except.ok.inj hb')
    exact absurd hcsid'.symm hcsid

variable {s : RtmpIn} {n : Nat} {out : List Packet}

theorem Settled.behind (hsettled : h.Settled) (hok : h.Consistent)
    (ht : h.attempt = .take s n out) : (h.behind s n).Settled := by
  obtain ⟨b, packet, header, t, parsed, done, hpass, hr, -, -, rfl⟩ := attempt_take ht
  have hcapacity := hpass.capacity hsettled hok
  intro csid open' hopen'
  left
  change ((done.elim (h.context.setStream b.csId t) (h.context.setStream b.csId t).messageComplete).stream
    csid).packet = some open' at hopen'
  change _ = (((done.elim (h.context.setStream b.csId t) (h.context.setStream b.csId t).messageComplete).stream
    csid).header.getD {}).msgLen.toNat
  rw [completed_stream] at hopen' ⊢
  by_cases hcsid : csid = b.csId
  · subst hcsid
    rw [RtmpIn.stream_setStream] at hopen' ⊢
    cases hr with
    | part delta ext parsed body hlen hfits hleft =>
        obtain rfl := Option.some.inj hopen'
        exact hcapacity
    | whole delta ext parsed body hlen hfits hleft => exact absurd hopen' nofun
  · rw [RtmpIn.stream_setStream_ne _ _ hcsid] at hopen' ⊢
    exact hsettled.other hpass.chunk hcsid hopen'

theorem Settled.enter (hsettled : h.Settled) (hok : h.Consistent) (hw : h.attempt = .wait s)
    (piece : List UInt8) : (LoopHead.enter s (h.unread ++ piece)).Settled := by
  intro csid open' hopen'
  rcases attempt_wait hw with rfl | ⟨b, packet, header, t, hpass, hr, rfl⟩
  · rcases hsettled csid open' hopen' with hknown | hfront
    · exact .inl hknown
    · exact .inr (hfront.append piece)
  · change ((h.context.setStream b.csId t).stream csid).packet = some open' at hopen'
    change _ = (((h.context.setStream b.csId t).stream csid).header.getD {}).msgLen.toNat ∨ _
    by_cases hcsid : csid = b.csId
    · subst hcsid
      rw [RtmpIn.stream_setStream] at hopen' ⊢
      cases hr with
      | more delta ext =>
          obtain rfl := Option.some.inj hopen'
          have hcapacity := hpass.capacity hsettled hok
          change packet.capacity = (h.prev b).msgLen.toNat ∨ Fronts _ _ packet.capacity
          cases hdeclared : declaredLength b.fmt (h.fields b) with
          | none =>
              left
              rw [hcapacity, hpass.length, hdeclared]
              rfl
          | some len =>
              right
              have hfront : Fronts h.unread b.csId packet.capacity := by
                refine ⟨b, len, chunk_front hpass.chunk, rfl, hdeclared, ?_⟩
                rw [hcapacity, hpass.length, hdeclared]
                rfl
              exact hfront.append piece
    · rw [RtmpIn.stream_setStream_ne _ _ hcsid] at hopen' ⊢
      exact .inl (hsettled.other hpass.chunk hcsid hopen')

/-- A chunk that is taken makes the length it declares known. -/
theorem known_behind (ht : h.attempt = .take s n out) (csid : UInt32) :
    (h.behind s n).known csid = (h.declares csid).getD (h.known csid) := by
  have hdeclares : h.declares csid = match h.chunk with
      | some b => if b.csId = csid then declaredLength b.fmt (h.fields b) else none
      | none => none := by
    unfold declares
    rw [ht]
    cases h.chunk <;> rfl
  obtain ⟨b, packet, header, t, parsed, done, hpass, hr, -, -, rfl⟩ := attempt_take ht
  change (((done.elim (h.context.setStream b.csId t) (h.context.setStream b.csId t).messageComplete).stream
    csid).header.getD {}).msgLen = _
  rw [completed_stream, hdeclares, hpass.chunk]
  dsimp only
  by_cases hcsid : b.csId = csid
  · rw [if_pos hcsid, ← hcsid, RtmpIn.stream_setStream]
    have hlength : (t.header.getD {}).msgLen = header.msgLen := by
      cases hr with
      | part delta ext parsed body hlen hfits hleft => rfl
      | whole delta ext parsed body hlen hfits hleft => rfl
    rw [hlength, hpass.length]
    rfl
  · rw [if_neg hcsid, RtmpIn.stream_setStream_ne _ _ (Ne.symm hcsid)]
    rfl

theorem known_enter (hw : h.attempt = .wait s) (buf : List UInt8) (csid : UInt32) :
    (LoopHead.enter s buf).known csid = h.known csid := by
  rcases attempt_wait hw with rfl | ⟨b, packet, header, t, hpass, hr, rfl⟩
  · rfl
  · change (((h.context.setStream b.csId t).stream csid).header.getD {}).msgLen = _
    by_cases hcsid : csid = b.csId
    · subst hcsid
      rw [RtmpIn.stream_setStream]
      cases hr with
      | more delta ext => rfl
    · rw [RtmpIn.stream_setStream_ne _ _ hcsid]
      rfl

end LoopHead

section Run
variable {past : List LoopHead} {h : LoopHead}

theorem LoopRun.known_eq (hrun : LoopRun past h) (csid : UInt32) :
    h.known csid = lastDeclared past csid := by
  induction hrun with
  | start piece => rfl
  | pass _ ht ih => rw [LoopHead.known_behind ht, lastDeclared_concat, ih]
  | @call past h s piece _ hw ih =>
      have hnone : h.declares csid = none := by
        unfold LoopHead.declares
        rw [hw]
      rw [LoopHead.known_enter hw, lastDeclared_concat, hnone, ih]
      rfl

theorem LoopRun.settled (hrun : LoopRun past h) (hok : ∀ g ∈ past, g.Consistent) : h.Settled := by
  induction hrun with
  | start piece => exact fun _ _ hpacket => absurd hpacket nofun
  | pass _ ht ih =>
      have hpast := ih fun g hg => hok g (List.mem_append_left _ hg)
      exact hpast.behind (hok _ (List.mem_append_right _ List.mem_cons_self)) ht
  | call piece _ hw ih =>
      have hpast := ih fun g hg => hok g (List.mem_append_left _ hg)
      exact hpast.enter (hok _ (List.mem_append_right _ List.mem_cons_self)) hw piece

/-- While the headers are consistent, a message that is completed has the length its stream declared last. -/
theorem LoopRun.completed_length (hrun : LoopRun past h) (hok : ∀ g ∈ past ++ [h], g.Consistent)
    {s : RtmpIn} {n : Nat} {out : List Packet} (ht : h.attempt = .take s n out) :
    ∀ packet ∈ out, ∃ header, packet.ext = some header ∧ packet.packetSize = header.msgLen.toNat ∧
      header.msgLen = lastDeclared (past ++ [h]) header.csId := by
  intro packet hmem
  have hsettled := hrun.settled fun g hg => hok g (List.mem_append_left _ hg)
  have hconsistent := hok h (List.mem_append_right _ List.mem_cons_self)
  obtain ⟨b, open', header, t, parsed, done, hpass, hr, -, rfl, -⟩ := LoopHead.attempt_take ht
  have hcapacity := hpass.capacity hsettled hconsistent
  obtain ⟨hopen, hcsid⟩ := hpass.open hrun.sound
  have hlast : header.msgLen = lastDeclared (past ++ [h]) header.csId := by
    rw [lastDeclared_concat, ← hrun.known_eq, hpass.length, hcsid]
    unfold LoopHead.declares
    rw [ht, hpass.chunk]
    dsimp only
    rw [if_pos rfl]
    rfl
  cases hr with
  | part delta ext parsed body hlen hfits hleft => exact absurd hmem List.not_mem_nil
  | whole delta ext parsed body hlen hfits hleft =>
      obtain rfl := List.mem_singleton.mp hmem
      refine ⟨header, rfl, ?_, hlast⟩
      have hsmall := hopen.small
      unfold Packet.space at hleft
      dsimp only at hleft
      rw [List.length_append] at hleft
      rw [int32_of_lt (by omega) (by omega)] at hleft
      unfold Packet.packetSize
      dsimp only
      rw [List.length_append]
      omega

end Run

/-- A Set Chunk Size message of four bytes, and a chunk of format 3 on a stream without a header. -/
def guessedLength : LoopHead :=
  .enter {} [2, 0, 0, 0, 0, 0, 4, 1, 0, 0, 0, 0, 0, 0, 0, 1, 0xC3, 0xAA]

theorem LoopRun.completed_length_setChunkSize : ∃ packet ∈ guessedLength.messages, ∃ header,
    packet.ext = some header ∧ packet.packetSize = header.msgLen.toNat ∧
      header.msgLen = lastDeclared [guessedLength] header.csId := by
  have hmessages : guessedLength.messages ≠ [] := by decide
  have hconsistent : guessedLength.Consistent := by
    intro b hb
    have hfront : guessedLength.chunk = some ⟨.fmt0, 2, 1⟩ := rfl
    obtain rfl := Option.some.inj (hfront.symm.trans hb)
    intro hnone
    exact absurd hnone (by decide)
  obtain ⟨s, n, ht, -⟩ := LoopHead.attempt_of_messages hmessages
  have hall : ∀ g ∈ [] ++ [guessedLength], g.Consistent := by
    intro g hg
    obtain rfl := List.mem_singleton.mp hg
    exact hconsistent
  obtain ⟨packet, hmem⟩ := List.exists_mem_of_ne_nil _ hmessages
  exact ⟨packet, hmem, LoopRun.completed_length (.start _) hall ht packet hmem⟩

/-- The second message has one byte, and its header says zero. -/
theorem guessedLength_differs : ¬ ∀ past h, LoopRun past h → ∀ s n out, h.attempt = .take s n out →
    ∀ packet ∈ out, ∃ header, packet.ext = some header ∧ packet.packetSize = header.msgLen.toNat ∧
      header.msgLen = lastDeclared (past ++ [h]) header.csId := by
  intro hclaim
  have hfirst : guessedLength.messages ≠ [] := by decide
  have hsecond : guessedLength.next.messages.map (fun p => (p.packetSize, p.ext.map (·.msgLen))) =
      [(1, some 0)] := by decide
  obtain ⟨s, n, ht, hnext⟩ := LoopHead.attempt_of_messages hfirst
  have hrun : LoopRun [guessedLength] guessedLength.next := by
    rw [hnext]
    exact .pass (.start _) ht
  have hone : guessedLength.next.messages ≠ [] := fun hnil => absurd (hnil ▸ hsecond) nofun
  obtain ⟨s', n', ht', -⟩ := LoopHead.attempt_of_messages hone
  obtain ⟨packet, hmem, hpacket⟩ := List.mem_map.mp (hsecond ▸ List.mem_singleton_self (1, some (0 : UInt32)))
  obtain ⟨header, hext, hsize, -⟩ := hclaim _ _ hrun _ _ _ ht' packet hmem
  obtain ⟨hlength, hlen⟩ := Prod.mk.inj hpacket
  rw [hext] at hlen
  obtain hlen : header.msgLen = 0 := Option.some.inj hlen
  rw [hlength, hlen] at hsize
  exact absurd hsize (by decide)

end TmmsServer
