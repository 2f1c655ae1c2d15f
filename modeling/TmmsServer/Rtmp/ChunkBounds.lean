import TmmsServer.Rtmp.ChunkResume

/-!
# The chunk parser stays inside its memory

From a fresh context the parser reads no byte behind the readable ones and copies
none behind the end of a packet, whatever the bytes are.
-/
namespace TmmsServer
open Lib.Words Lib.Feed BytesReader

/-- A packet holds no more than it has room for, and that is a signed 32-bit number. -/
structure Packet.Bounded (packet : Packet) : Prop where
  fits : packet.data.length ≤ packet.capacity
  small : packet.capacity < 2 ^ 31

def InStream.Bounded (t : InStream) : Prop := ∀ packet, t.packet = some packet → packet.Bounded

def RtmpIn.Bounded (s : RtmpIn) : Prop := ∀ csid, (s.stream csid).Bounded

/-- An opened packet that is bounded, or no fault of bounds. -/
def OpenPacket.Inside : Checked (RtmpMsgHeader × Packet) → Prop
  | .error e => e ≠ .outOfBounds
  | .ok (_, packet) => packet.Bounded

/-- A pass that stays inside and leaves its packet bounded. -/
def StreamPass.Inside : Checked StreamPass → Prop
  | .error e => e ≠ .outOfBounds
  | .ok (.more t) => t.Bounded
  | .ok (.chunk t _ _) => t.Bounded

theorem Packet.Bounded.setExt {packet : Packet} (h : packet.Bounded) (header : RtmpMsgHeader) :
    (packet.setExt header).Bounded := ⟨h.fits, h.small⟩

theorem newPacket_bounded {n : Int} {packet : Packet}
    (h : Packet.newPacket (int32 n) = .ok packet) : packet.Bounded := by
  have hword : int32 n < 2 ^ 31 := by
    unfold int32
    rw [Int.bmod_def]
    split <;> omega
  unfold Packet.newPacket at h
  split at h
  · exact absurd h nofun
  · obtain rfl := Except.ok.inj h
    refine ⟨Nat.zero_le _, ?_⟩
    dsimp only
    omega

theorem newPacket_error {n : Int} {e : Fault} (h : Packet.newPacket n = .error e) :
    e ≠ .outOfBounds := by
  unfold Packet.newPacket at h
  split at h
  · obtain rfl := Except.error.inj h
    exact nofun
  · exact absurd h nofun

/-- The length in a message header of format 0 or 1. -/
def declaredLength (fmt : RtmpFmt) (p : List UInt8) : Option UInt32 :=
  if fmt = .fmt0 ∨ fmt = .fmt1 then (readUint24T p 3).toOption else none

section Stream
variable {t : InStream} {fmt : RtmpFmt} (csid : UInt32) (k : Int32) {p : List UInt8}

theorem declaredLength_read (hfmt : fmt = .fmt0 ∨ fmt = .fmt1) {len : UInt32}
    (h : readUint24T p 3 = .ok len) : declaredLength fmt p = some len := by
  rw [declaredLength, if_pos hfmt, h]
  rfl

theorem declaredLength_none (hfmt : ¬ (fmt = .fmt0 ∨ fmt = .fmt1)) : declaredLength fmt p = none :=
  if_neg hfmt

/-- The length a pass goes by: declared, known from the stream, or guessed. -/
def chunkLength (t : InStream) (fmt : RtmpFmt) (k : Int32) (p : List UInt8) : UInt32 :=
  (declaredLength fmt p).getD
    (if (t.header.getD {}).msgLen = 0 then k.toUInt32 else (t.header.getD {}).msgLen)

/-- The packet of a chunk is the open one, or a new one for the length the chunk goes by. -/
theorem openPacket_cases (hp : fmt.fieldBytes ≤ p.length) :
    openPacket t fmt csid k p = (match t.packet with
      | some packet => .ok (t.header.getD {}, packet)
      | none => do
          let packet ← Packet.newPacket (int32 (chunkLength t fmt k p).toNat)
          return (t.header.getD {}, packet.setExt { csId := csid, msgLen := chunkLength t fmt k p })) := by
  unfold openPacket chunkLength
  dsimp only
  by_cases hfmt : fmt = .fmt0 ∨ fmt = .fmt1
  · have hfield : 3 + 3 ≤ p.length := by
      rcases hfmt with rfl | rfl
      · exact Nat.le_trans (by decide : 6 ≤ RtmpFmt.fmt0.fieldBytes) hp
      · exact Nat.le_trans (by decide : 6 ≤ RtmpFmt.fmt1.fieldBytes) hp
    obtain ⟨msgLen, hmsg⟩ := readUint24T_ok p 3 hfield
    rw [if_pos hfmt, hmsg, ok_bind, declaredLength_read hfmt hmsg]
    cases t.packet <;> rfl
  · rw [if_neg hfmt, pure_bind, declaredLength_none hfmt]
    cases t.packet <;> rfl

theorem openPacket_inside (hp : fmt.fieldBytes ≤ p.length) (ht : t.Bounded) :
    OpenPacket.Inside (openPacket t fmt csid k p) := by
  rw [openPacket_cases csid k hp]
  cases hpacket : t.packet with
  | some packet => exact ht packet hpacket
  | none =>
      cases hnew : Packet.newPacket (int32 (chunkLength t fmt k p).toNat) with
      | error e => exact newPacket_error hnew
      | ok packet => exact (newPacket_bounded hnew).setExt { csId := csid, msgLen := chunkLength t fmt k p }

theorem storeBody_inside {header : RtmpMsgHeader} {packet : Packet} {body : List UInt8}
    (parsed : Nat) (hpacket : packet.Bounded) (hbody : (body.length : Int) ≤ packet.space) :
    ∃ r, storeBody t header packet body parsed = .ok r ∧ StreamPass.Inside (.ok r) := by
  have hfits := hpacket.fits
  have hsmall := hpacket.small
  have hspace : packet.space = packet.capacity - packet.data.length :=
    int32_of_lt (by omega) (by omega)
  have hroom : packet.data.length + body.length ≤ packet.capacity := by omega
  have hstored : ({ packet with data := packet.data ++ body } : Packet).Bounded :=
    ⟨by dsimp only; rw [List.length_append]; exact hroom, hsmall⟩
  have hstore : packet.store body = .ok { packet with data := packet.data ++ body } := if_pos hroom
  unfold storeBody
  rw [hstore, ok_bind]
  split
  · exact ⟨_, rfl, fun _ h => absurd h nofun⟩
  · exact ⟨_, rfl, fun _ h => Option.some.inj h ▸ hstored⟩

/-- With its packet open, a pass returns. -/
theorem parseStream_returns {prev header : RtmpMsgHeader} {packet : Packet}
    (hp : fmt.fieldBytes ≤ p.length)
    (hN : p.length < 2 ^ 31) (ho : openPacket t fmt csid k p = .ok (prev, packet))
    (hx : packet.ext = some header) (hpacket : packet.Bounded) :
    ∃ r, parseStream t fmt csid k p p.length = .ok r ∧ StreamPass.Inside (.ok r) := by
  rw [parseStream_open ho hx]
  obtain ⟨r, hr, hres⟩ := streamHeader_resumes prev header t.delta t.ext [] hp (by rwa [List.append_nil])
  rw [hr, ok_bind]
  cases hres with
  | short _ => exact ⟨_, rfl, fun _ h => Option.some.inj h ▸ hpacket.setExt _⟩
  | @ready h d e n hn _ _ =>
      unfold bodyPass
      dsimp only
      rcases copyBody_resumes ⟨some prev, some (packet.setExt h), d, e⟩ h (packet.setExt h) k [] hn
        (by rwa [List.append_nil]) with hmore | ⟨body, -, hbody, hstore, -⟩
      · rw [hmore]
        exact ⟨_, rfl, fun _ h => Option.some.inj h ▸ hpacket.setExt _⟩
      · rw [hstore]
        exact storeBody_inside n (hpacket.setExt h) hbody

theorem parseStream_inside (hp : fmt.fieldBytes ≤ p.length) (hN : p.length < 2 ^ 31)
    (ht : t.Bounded) : StreamPass.Inside (parseStream t fmt csid k p p.length) := by
  have hopen := openPacket_inside csid k hp ht
  cases ho : openPacket t fmt csid k p with
  | error e =>
      rw [ho] at hopen
      unfold parseStream
      rw [ho, error_bind]
      exact hopen
  | ok q =>
      obtain ⟨prev, packet⟩ := q
      rw [ho] at hopen
      cases hx : packet.ext with
      | none =>
          unfold parseStream
          rw [ho, ok_bind]
          dsimp only
          rw [hx]
          exact (nofun : Fault.nullDeref ≠ .outOfBounds)
      | some header =>
          obtain ⟨r, hr, hin⟩ := parseStream_returns csid k hp hN ho hx hopen
          rw [hr]
          exact hin

end Stream

theorem RtmpIn.Bounded.setStream {s : RtmpIn} (h : s.Bounded) {csid : UInt32} {t : InStream}
    (ht : t.Bounded) : (s.setStream csid t).Bounded := by
  intro c
  by_cases hc : c = csid
  · subst hc
    rw [RtmpIn.stream_setStream]
    exact ht
  · rw [RtmpIn.stream_setStream_ne s t hc]
    exact h c

theorem RtmpIn.Bounded.messageComplete {s : RtmpIn} (h : s.Bounded) (packet : Packet) :
    (s.messageComplete packet).Bounded := by
  unfold RtmpIn.messageComplete RtmpIn.handleChunkSize
  split
  · split
    · exact h
    · exact h
  · exact h

/-- An attempt that stays inside and leaves the packets bounded. -/
def Attempt.Inside : Attempt RtmpIn Packet Fault → Prop
  | .wait s => s.Bounded
  | .take s _ _ => s.Bounded
  | .fail e => e ≠ .outOfBounds

theorem parseStep_inside {s : RtmpIn} {u : List UInt8} (hN : u.length < 2 ^ 31) (hs : s.Bounded) :
    Attempt.Inside (parseStep s u) := by
  by_cases h1 : 1 < u.length
  · have hu : parseStep s u = parseChunk s u u.length := if_pos h1
    rw [hu]
    rcases basicHeader_resumes [] h1 with hnone | ⟨b, hle, hpos, hb, -⟩
    · unfold parseChunk
      rw [hnone]
      exact hs
    · by_cases hshort : u.length - b.parsed < max 1 b.fmt.fieldBytes
      · rw [parseChunk_short hb hle hN hshort]
        exact hs
      · have hdrop : (u.drop b.parsed).length = u.length - b.parsed := List.length_drop
        rw [parseChunk_stream hb hle hN hshort]
        have hin := parseStream_inside b.csId s.inChunkSize
          (by omega : b.fmt.fieldBytes ≤ (u.drop b.parsed).length) (by omega) (hs b.csId)
        cases hpass : parseStream (s.stream b.csId) b.fmt b.csId s.inChunkSize (u.drop b.parsed)
            (u.drop b.parsed).length with
        | error e =>
            rw [hpass] at hin
            exact hin
        | ok pass =>
            rw [hpass] at hin
            cases pass with
            | more t => exact hs.setStream hin
            | chunk t n done =>
                cases done with
                | none => exact hs.setStream hin
                | some packet => exact (hs.setStream hin).messageComplete packet
  · have hu : parseStep s u = .wait s := if_neg h1
    rw [hu]
    exact hs

/-- A call of `ParseMessage` on a context with bounded packets. -/
theorem parseMessage_inside {s : RtmpIn} {u : List UInt8} (hN : u.length < 2 ^ 31)
    (hs : s.Bounded) : match (parseMessage s u).fin with
    | .error e => e ≠ .outOfBounds
    | .ok (s', _) => s'.Bounded := by
  rw [parseMessage_eq_drain s u hN]
  induction hn : u.length using Nat.strongRecOn generalizing s u with
  | ind n ih =>
      have hin := parseStep_inside hN hs
      cases hstep : parseStep s u with
      | wait s' =>
          rw [drain_wait hstep]
          rw [hstep] at hin
          exact hin
      | fail e =>
          rw [drain_fail hstep]
          rw [hstep] at hin
          exact hin
      | take s' m out =>
          obtain ⟨hpos, hle⟩ := parseChunk_resumable.take_pos (by omega) hstep
          have hdrop : (u.drop m).length = u.length - m := List.length_drop
          rw [hstep] at hin
          rw [drain_take parseChunk_resumable (by omega) hstep]
          exact ih _ (by omega) (by omega) hin rfl

theorem bounded_initial : ({} : RtmpIn).Bounded := fun _ _ h => absurd h nofun

end TmmsServer
