import TmmsServer.Rtmp.ChunkPasses

/-!
# Bounds of the chunk parser

From any state a receiver comes to, a call stays inside its memory and takes
bytes in every pass. It returns as long as no negative length is guessed.
-/
namespace TmmsServer
open Lib.Words Lib.Feed BytesReader

/-- The states a receiver comes to on any bytes. -/
def RtmpIn.Reached (s : RtmpIn) : Prop := ∃ past h, LoopRun past h ∧ h.context = s

theorem RtmpIn.Reached.sound {s : RtmpIn} (h : s.Reached) : s.Sound := by
  obtain ⟨past, head, hrun, rfl⟩ := h
  exact hrun.sound

theorem reached_initial : ({} : RtmpIn).Reached := ⟨[], .enter {} [], .start [], rfl⟩

theorem int32_toUInt32 (k : Int32) : int32 k.toUInt32.toNat = k.toInt :=
  (BitVec.toInt_eq_toNat_bmod k.toBitVec).symm

section Stream
variable {t : InStream} {fmt : RtmpFmt} (csid : UInt32) (k : Int32) {p : List UInt8}

/-- A length that was read or is known is positive as a signed number; only the chunk size may be negative. -/
theorem chunkLength_negative (hlen : (t.header.getD {}).msgLen.toNat < 2 ^ 24) :
    int32 (chunkLength t fmt k p).toNat < 0 ↔
      declaredLength fmt p = none ∧ (t.header.getD {}).msgLen = 0 ∧ k.toInt < 0 := by
  have hshort : ∀ len : UInt32, len.toNat < 2 ^ 24 → ¬ int32 len.toNat < 0 := by
    intro len hlt
    rw [int32_of_lt (by omega) (by omega)]
    exact Int.not_lt.mpr (Int.natCast_nonneg _)
  unfold chunkLength
  cases hdeclared : declaredLength fmt p with
  | some len => exact iff_of_false (hshort len (declaredLength_lt hdeclared)) fun h => nomatch h.1
  | none =>
      by_cases hzero : (t.header.getD {}).msgLen = 0
      · rw [if_pos hzero]
        change int32 k.toUInt32.toNat < 0 ↔ _
        rw [int32_toUInt32]
        exact ⟨fun h => ⟨rfl, hzero, h⟩, fun h => h.2.2⟩
      · rw [if_neg hzero]
        exact iff_of_false (hshort _ hlen) fun h => hzero h.2.1

/-- A pass fails exactly where it opens a packet with a negative length. -/
theorem parseStream_fails_iff (hp : fmt.fieldBytes ≤ p.length) (hN : p.length < 2 ^ 31)
    (ht : t.Sound csid) {e : Fault} : parseStream t fmt csid k p p.length = .error e ↔
      t.packet = none ∧ int32 (chunkLength t fmt k p).toNat < 0 ∧ e = .badAlloc := by
  have hopen := openPacket_cases (t := t) csid k hp
  cases hpacket : t.packet with
  | some packet =>
      rw [hpacket] at hopen
      have hpacketOpen := ht.packet packet hpacket
      obtain ⟨header, hext, -⟩ := hpacketOpen.ext
      obtain ⟨r, hr, -⟩ := parseStream_returns csid k hp hN hopen hext hpacketOpen.toBounded
      rw [hr]
      exact iff_of_false nofun fun h => nomatch h.1
  | none =>
      rw [hpacket] at hopen
      dsimp only at hopen
      by_cases hneg : int32 (chunkLength t fmt k p).toNat < 0
      · have hnew : Packet.newPacket (int32 (chunkLength t fmt k p).toNat) = .error .badAlloc := if_pos hneg
        rw [hnew, error_bind] at hopen
        unfold parseStream
        rw [hopen, error_bind]
        exact ⟨fun h => ⟨rfl, hneg, (Except.error.inj h).symm⟩, fun h => h.2.2 ▸ rfl⟩
      · have hnew : Packet.newPacket (int32 (chunkLength t fmt k p).toNat) =
            .ok { capacity := (int32 (chunkLength t fmt k p).toNat).toNat } := if_neg hneg
        have hbounded := newPacket_bounded hnew
        rw [hnew, ok_bind] at hopen
        obtain ⟨r, hr, -⟩ := parseStream_returns csid k hp hN hopen rfl (hbounded.setExt _)
        rw [hr]
        exact iff_of_false nofun fun h => hneg h.2.1

end Stream

namespace LoopHead
variable {h g : LoopHead} {b : BasicHeader} {s : RtmpIn} {n : Nat} {out : List Packet}

/-- The bytes counted are those unread, and few enough for an `int`. -/
structure Counted (h : LoopHead) : Prop where
  total : h.totalBytes = h.unread.length
  small : h.unread.length < 2 ^ 31

theorem enter_counted (s : RtmpIn) {buf : List UInt8} (hN : buf.length < 2 ^ 31) :
    (enter s buf).Counted where
  total := by
    change uint32 buf.length = buf.length
    rw [uint32_of_lt (by omega) (by omega)]
    rfl
  small := hN

theorem Counted.attempt_eq (hc : h.Counted) : h.attempt = parseStep h.context h.unread := by
  unfold attempt parseStep
  rw [hc.total]

/-- A pass that goes on takes at least one byte, and no more than there are. -/
theorem Counted.take_inside (hc : h.Counted) (ht : h.attempt = .take s n out) :
    0 < n ∧ n ≤ h.unread.length := by
  have hsmall := hc.small
  rw [hc.attempt_eq] at ht
  exact parseChunk_resumable.take_pos (by omega) ht

theorem Counted.behind (hc : h.Counted) (ht : h.attempt = .take s n out) :
    (h.behind s n).Counted := by
  have hsmall := hc.small
  have hle := (hc.take_inside ht).2
  have hlen : (h.behind s n).unread.length = h.unread.length - n := List.length_drop
  constructor
  · rw [hlen]
    change uint32 (h.totalBytes - n) = _
    rw [hc.total, uint32_sub hle (by omega)]
  · omega

theorem Leads.counted (hlead : h.Leads g) (hc : h.Counted) : g.Counted := by
  induction hlead with
  | refl => exact hc
  | tail _ hstep ih =>
      obtain ⟨s, n, out, ht, rfl⟩ := hstep
      exact ih.behind ht

theorem Leads.sound (hlead : h.Leads g) (hs : h.context.Sound) : g.context.Sound := by
  induction hlead with
  | refl => exact hs
  | tail _ hstep ih =>
      obtain ⟨s, n, out, ht, rfl⟩ := hstep
      exact take_sound ih ht

theorem chunk_long (hb : h.chunk = some b) :
    1 < h.totalBytes ∧ ¬ (int32 (h.totalBytes - b.parsed) = 0 ∨
      (b.fmt = .fmt0 ∧ int32 (h.totalBytes - b.parsed) < 11) ∨
      (b.fmt = .fmt1 ∧ int32 (h.totalBytes - b.parsed) < 7) ∨
      (b.fmt = .fmt2 ∧ int32 (h.totalBytes - b.parsed) < 3)) := by
  unfold chunk at hb
  split at hb
  next hlong =>
    refine ⟨hlong, ?_⟩
    split at hb
    next b' hbasic =>
      dsimp only at hb
      split at hb
      · exact absurd hb nofun
      · next hsize =>
          obtain rfl := Option.some.inj hb
          exact hsize
    next => exact absurd hb nofun
  next => exact absurd hb nofun

theorem Counted.fields_length (hc : h.Counted) (hb : h.chunk = some b) :
    b.parsed ≤ h.unread.length ∧ (h.fields b).length = h.unread.length - b.parsed ∧
      max 1 b.fmt.fieldBytes ≤ (h.fields b).length := by
  have hsmall := hc.small
  obtain ⟨hlong, hsize⟩ := chunk_long hb
  have hbasic := chunk_basic hb
  rw [hc.total] at hlong hsize hbasic
  have hlen : (h.fields b).length = h.unread.length - b.parsed := List.length_drop
  rcases basicHeader_resumes [] hlong with hnone | ⟨b', hle, -, hb', -⟩
  · exact absurd (hnone.symm.trans hbasic) nofun
  · obtain rfl := Option.some.inj (Except.ok.inj (hb'.symm.trans hbasic))
    refine ⟨hle, hlen, ?_⟩
    rw [sizeTest_iff b'.fmt hle hsmall] at hsize
    omega

theorem Counted.attempt_chunk (hc : h.Counted) (hb : h.chunk = some b) :
    h.attempt = h.context.finishPass b (parseStream (h.stream b) b.fmt b.csId h.context.inChunkSize
      (h.fields b) (h.fields b).length) := by
  have hsmall := hc.small
  obtain ⟨hle, hlen, -⟩ := hc.fields_length hb
  have hcases := h.attempt_cases
  rw [hb] at hcases
  dsimp only at hcases
  rw [hcases, hc.total, uint32_sub hle (by omega), hlen]

/-- A chunk without a length opens a packet on a stream that knows none, while the chunk size is negative. -/
def GuessesNegative (h : LoopHead) : Prop := ∃ b, h.chunk = some b ∧ (h.stream b).packet = none ∧
  declaredLength b.fmt (h.fields b) = none ∧ (h.prev b).msgLen = 0 ∧ h.context.inChunkSize.toInt < 0

theorem Counted.fails_iff (hc : h.Counted) (hs : h.context.Sound) {e : Fault} :
    h.attempt = .fail e ↔ e = .badAlloc ∧ h.GuessesNegative := by
  have hsmall := hc.small
  cases hb : h.chunk with
  | none =>
      refine iff_of_false ?_ ?_
      · intro hfail
        have hcases := h.attempt_cases
        rw [hb] at hcases
        rcases hcases with hwait | ⟨e', hbasic, -⟩
        · exact absurd (hwait.symm.trans hfail) nofun
        · by_cases hlong : 1 < h.unread.length
          · rw [hc.total] at hbasic
            rcases basicHeader_resumes [] hlong with hnone | ⟨b', -, -, hb', -⟩
            · exact absurd (hnone.symm.trans hbasic) nofun
            · exact absurd (hb'.symm.trans hbasic) nofun
          · rw [hc.attempt_eq, parseStep, if_neg hlong] at hfail
            exact absurd hfail nofun
      · rintro ⟨-, b, hb', -⟩
        exact absurd (hb.symm.trans hb') nofun
  | some b =>
      obtain ⟨-, hlen, hfields⟩ := hc.fields_length hb
      have hfails := @parseStream_fails_iff (h.stream b) b.fmt b.csId h.context.inChunkSize (h.fields b)
        (by omega) (by omega) (hs b.csId) e
      have hneg := @chunkLength_negative (h.stream b) b.fmt h.context.inChunkSize (h.fields b) (hs b.csId).length
      rw [hc.attempt_chunk hb]
      constructor
      · intro hfail
        cases hr : parseStream (h.stream b) b.fmt b.csId h.context.inChunkSize (h.fields b)
            (h.fields b).length with
        | error e' =>
            rw [hr] at hfail
            obtain rfl := Attempt.fail.inj hfail
            obtain ⟨hpacket, hsize, rfl⟩ := hfails.mp hr
            obtain ⟨hdeclared, hzero, hk⟩ := hneg.mp hsize
            exact ⟨rfl, b, hb, hpacket, hdeclared, hzero, hk⟩
        | ok r =>
            rw [hr] at hfail
            cases r with
            | more t => exact absurd hfail nofun
            | chunk t parsed done => cases done <;> exact absurd hfail nofun
      · rintro ⟨rfl, b', hb', hpacket, hdeclared, hzero, hk⟩
        obtain rfl := Option.some.inj (hb.symm.trans hb')
        rw [hfails.mpr ⟨hpacket, hneg.mpr ⟨hdeclared, hzero, hk⟩, rfl⟩]
        rfl

end LoopHead

/-- A call stays inside, takes bytes in each pass that goes on, and returns, exactly where no pass
guesses a negative length. -/
theorem parseMessage_bounds_iff {s : RtmpIn} (hs : s.Reached) {buf : List UInt8}
    (hN : buf.length < 2 ^ 31) :
    ((∀ g, (LoopHead.enter s buf).Leads g → g.attempt ≠ .fail .outOfBounds ∧
        ∀ s' n out, g.attempt = .take s' n out → 0 < n ∧ n ≤ g.unread.length) ∧
      ∃ r, (parseMessage s buf).fin = .ok r) ↔
    ∀ g, (LoopHead.enter s buf).Leads g → ¬ g.GuessesNegative := by
  have hcounted : ∀ g, (LoopHead.enter s buf).Leads g → g.Counted :=
    fun g hlead => hlead.counted (LoopHead.enter_counted s hN)
  have hsound : ∀ g, (LoopHead.enter s buf).Leads g → g.context.Sound :=
    fun g hlead => hlead.sound hs.sound
  constructor
  · rintro ⟨-, r, hr⟩ g hlead hneg
    have hfail := ((hcounted g hlead).fails_iff (hsound g hlead)).mpr ⟨rfl, hneg⟩
    exact absurd (hr.symm.trans (parseMessage_fails hlead hfail)) nofun
  · intro hnone
    refine ⟨?_, ?_⟩
    · intro g hlead
      refine ⟨?_, fun s' n out ht => (hcounted g hlead).take_inside ht⟩
      intro hfail
      exact absurd (((hcounted g hlead).fails_iff (hsound g hlead)).mp hfail).1 nofun
    · obtain ⟨g, hlead, ⟨s', hwait⟩ | ⟨e, hfail⟩⟩ := parseMessage_ends s buf
      · exact ⟨_, parseMessage_waits hlead hwait⟩
      · exact absurd (((hcounted g hlead).fails_iff (hsound g hlead)).mp hfail).2 (hnone g hlead)

/-- An audio message of one byte is taken in bounds, in one pass. -/
theorem parseMessage_bounds_iff_audio :
    (∀ g, (LoopHead.enter {} oneByteMessage).Leads g → g.attempt ≠ .fail .outOfBounds ∧
        ∀ s' n out, g.attempt = .take s' n out → 0 < n ∧ n ≤ g.unread.length) ∧
      ∃ r, (parseMessage {} oneByteMessage).fin = .ok r := by
  obtain ⟨s, n, hattempt, hnext⟩ :=
    LoopHead.attempt_of_messages (by decide : (LoopHead.enter {} oneByteMessage).messages ≠ [])
  refine (parseMessage_bounds_iff reached_initial (by decide)).mpr fun g hlead ⟨_, _, _, _, _, hneg⟩ => ?_
  rcases Relation.ReflTransGen.cases_head hlead with rfl | ⟨_, ⟨s', n', out, ht, rfl⟩, hlead⟩
  · exact absurd hneg (by decide)
  · obtain ⟨rfl, rfl, -⟩ := Attempt.take.inj (hattempt.symm.trans ht)
    rw [← hnext] at hlead
    -- nothing is left behind the message
    have hwait : (LoopHead.enter {} oneByteMessage).next.attempt =
        .wait (LoopHead.enter {} oneByteMessage).next.context := if_neg (by decide)
    rcases Relation.ReflTransGen.cases_head hlead with rfl | ⟨_, ⟨_, _, _, ht', -⟩, -⟩
    · exact absurd hneg (by decide)
    · exact absurd (hwait.symm.trans ht') nofun

/-- The chunk size is set to `0x80000000`, and a chunk of format 3 opens a stream. -/
def negativeLength : List UInt8 := [2, 0, 0, 0, 0, 0, 4, 1, 0, 0, 0, 0, 0x80, 0, 0, 0, 0xC3, 0]

theorem negativeLength_throws : ¬ ∀ s : RtmpIn, s.Reached →
    ∀ buf : List UInt8, buf.length < 2 ^ 31 →
    (∀ g, (LoopHead.enter s buf).Leads g → g.attempt ≠ .fail .outOfBounds ∧
        ∀ s' n out, g.attempt = .take s' n out → 0 < n ∧ n ≤ g.unread.length) ∧
      ∃ r, (parseMessage s buf).fin = .ok r := by
  intro hclaim
  have hthrows : (parseMessage {} negativeLength).fin.toOption.isNone = true := by decide
  obtain ⟨r, hr⟩ := (hclaim {} reached_initial negativeLength (by decide)).2
  rw [hr] at hthrows
  exact absurd hthrows nofun

end TmmsServer
