import TmmsServer.Lib.Pace
import TmmsServer.Mmedia.Packet

/-!
# Corrected timestamps

`TimeCorrector` keeps, for video and for audio, the time of the last packet and the
corrected time it gave it. The 64-bit fields are integers: a packet adds less than 100
to them.
-/
namespace TmmsServer
open Lib Lib.Words

def kMaxVideoDeltaTime : Int := 100
def kMaxAudioDeltaTime : Int := 100
def kDefaultVideoDeltaTime : Int := 40
def kDefaultAudioDeltaTime : Int := 20

/-- How the corrected times of video, and of audio, go on. -/
def videoPace : Pace := ⟨kMaxVideoDeltaTime, kDefaultVideoDeltaTime, by decide, by decide⟩
def audioPace : Pace := ⟨kMaxAudioDeltaTime, kDefaultAudioDeltaTime, by decide, by decide⟩

/-- `CodecUtils::IsCodecHeader`. -/
def isCodecHeader (packet : Packet) : Bool :=
  if 1 < packet.packetSize then packet.data[1]? == some 0 else false

/-- `TimeStamp()` as it is stored in an `int64_t`. -/
def Packet.time (packet : Packet) : Int := int64 packet.timestamp.toNat

structure TimeCorrector where
  videoOriginalTimestamp : Int := -1
  videoCorrectedTimestamp : Int := 0
  audioOriginalTimestamp : Int := -1
  audioCorrectedTimestamp : Int := 0
  audioNumbersBetweenVideo : Nat := 0
  deriving DecidableEq, Repr

namespace TimeCorrector

/-- A first video packet that is too far from the last audio packet takes the time of that one. -/
def reanchors (s : TimeCorrector) (packet : Packet) : Bool :=
  let delta := int32 (s.audioOriginalTimestamp - packet.time)
  s.audioOriginalTimestamp != -1 && decide (delta ≤ -kMaxVideoDeltaTime ∨ kMaxVideoDeltaTime ≤ delta)

/-- The time and the corrected time that a video packet goes on from. -/
def videoBase (s : TimeCorrector) (packet : Packet) : Int × Int :=
  if s.videoOriginalTimestamp = -1 then
    if s.reanchors packet then (s.audioOriginalTimestamp, s.audioCorrectedTimestamp) else (packet.time, packet.time)
  else (s.videoOriginalTimestamp, s.videoCorrectedTimestamp)

/-- `CorrectVideoTimeStampByVideo`. -/
def correctVideoTimeStampByVideo (s : TimeCorrector) (packet : Packet) : Nat × TimeCorrector :=
  let time := packet.time
  let delta := time - (s.videoBase packet).1
  let corrected := videoPace.advance (s.videoBase packet).2 delta
  (uint32 corrected, { s with
    audioNumbersBetweenVideo := 0
    videoOriginalTimestamp := time
    videoCorrectedTimestamp := corrected })

/-- `CorrectAudioTimeStampByAudio`. -/
def correctAudioTimeStampByAudio (s : TimeCorrector) (packet : Packet) : Nat × TimeCorrector :=
  let time := packet.time
  let corrected :=
    if s.audioOriginalTimestamp = -1 then time
    else audioPace.advance s.audioCorrectedTimestamp (time - s.audioOriginalTimestamp)
  (uint32 corrected, { s with
    audioOriginalTimestamp := time
    audioCorrectedTimestamp := corrected })

/-- `CorrectAudioTimeStampByVideo`, which nothing calls. -/
def correctAudioTimeStampByVideo (s : TimeCorrector) (packet : Packet) : Nat × TimeCorrector :=
  let s := { s with audioNumbersBetweenVideo := s.audioNumbersBetweenVideo + 1 }
  if 1 < s.audioNumbersBetweenVideo then s.correctAudioTimeStampByAudio packet
  else
    let time := packet.time
    let corrected :=
      if s.videoOriginalTimestamp = -1 then time
      else audioPace.advance s.videoCorrectedTimestamp (time - s.videoOriginalTimestamp)
    (uint32 corrected, { s with
      audioOriginalTimestamp := time
      audioCorrectedTimestamp := corrected })

/-- `CorrectTimestamp`. -/
def correctTimestamp (s : TimeCorrector) (packet : Packet) : Nat × TimeCorrector :=
  if isCodecHeader packet then (0, s)
  else if packet.type = kPacketTypeVideo then s.correctVideoTimeStampByVideo packet
  else if packet.type = kPacketTypeAudio then s.correctAudioTimeStampByAudio packet
  else (0, s)

/-- The corrector after a packet, and after a row of them. -/
def step (s : TimeCorrector) (packet : Packet) : TimeCorrector := (s.correctTimestamp packet).2

def run (s : TimeCorrector) (packets : List Packet) : TimeCorrector := packets.foldl step s

end TimeCorrector

/-- A packet of video or audio data, with a timestamp of 32 bits. -/
structure Packet.Media (packet : Packet) : Prop where
  noHeader : isCodecHeader packet = false
  type : packet.type = kPacketTypeVideo ∨ packet.type = kPacketTypeAudio
  timestamp : packet.timestamp.toNat < 2 ^ 32

/-- The two streams, each with what the corrector keeps for it. -/
inductive MediaStream where
  | video
  | audio

namespace MediaStream

def type : MediaStream → Nat
  | video => kPacketTypeVideo
  | audio => kPacketTypeAudio

def pace : MediaStream → Pace
  | video => videoPace
  | audio => audioPace

def original : MediaStream → TimeCorrector → Int
  | video, s => s.videoOriginalTimestamp
  | audio, s => s.audioOriginalTimestamp

def corrected : MediaStream → TimeCorrector → Int
  | video, s => s.videoCorrectedTimestamp
  | audio, s => s.audioCorrectedTimestamp

/-- What is seen of the packets of the stream, packet by packet. -/
def observed {β : Type} (k : MediaStream) (see : Nat × TimeCorrector → β) : TimeCorrector → List Packet → List β
  | _, [] => []
  | s, packet :: packets =>
      if packet.type = k.type then see (s.correctTimestamp packet) :: k.observed see (s.step packet) packets
      else k.observed see (s.step packet) packets

/-- The corrected times that are kept, the values that are returned, and the raw times. -/
def values (k : MediaStream) (s : TimeCorrector) (packets : List Packet) : List Int :=
  k.observed (fun r => k.corrected r.2) s packets

def returned (k : MediaStream) (s : TimeCorrector) (packets : List Packet) : List Nat := k.observed (·.1) s packets

def times (k : MediaStream) (packets : List Packet) : List Int :=
  (packets.filter (·.type = k.type)).map Packet.time

/-- The first packet of the stream takes the time of the other stream. -/
def reanchors (k : MediaStream) (s : TimeCorrector) (packet : Packet) : Bool :=
  match k with
  | video => s.reanchors packet
  | audio => false

end MediaStream

namespace Packet.Media
variable {packet : Packet} (h : packet.Media)
include h

theorem time_eq : packet.time = packet.timestamp.toNat := by
  have hlt := h.timestamp
  exact int64_of_lt (by omega) (by omega)

theorem time_nonneg : 0 ≤ packet.time := by
  rw [h.time_eq]
  exact Int.natCast_nonneg _

theorem time_ne : packet.time ≠ -1 := by
  have hnonneg := h.time_nonneg
  omega

theorem uint32_time : (uint32 packet.time : Int) = packet.time := by
  have hlt := h.timestamp
  have heq := h.time_eq
  rw [uint32_of_lt h.time_nonneg (by omega), Int.toNat_of_nonneg h.time_nonneg]

end Packet.Media

namespace TimeCorrector
variable {s : TimeCorrector} {packet : Packet}

theorem correctTimestamp_video (h : packet.Media) (htype : packet.type = kPacketTypeVideo) :
    s.correctTimestamp packet = s.correctVideoTimeStampByVideo packet := by
  rw [correctTimestamp, h.noHeader, if_neg Bool.false_ne_true, if_pos htype]

theorem correctTimestamp_audio (h : packet.Media) (htype : packet.type = kPacketTypeAudio) :
    s.correctTimestamp packet = s.correctAudioTimeStampByAudio packet := by
  have hvideo : packet.type ≠ kPacketTypeVideo := by
    rw [htype]
    decide
  rw [correctTimestamp, h.noHeader, if_neg Bool.false_ne_true, if_neg hvideo, if_pos htype]

theorem step_video (h : packet.Media) (htype : packet.type = kPacketTypeVideo) :
    s.step packet = { s with
      audioNumbersBetweenVideo := 0
      videoOriginalTimestamp := packet.time
      videoCorrectedTimestamp :=
        videoPace.advance (s.videoBase packet).2 (packet.time - (s.videoBase packet).1) } := by
  rw [step, correctTimestamp_video h htype]
  rfl

theorem step_audio (h : packet.Media) (htype : packet.type = kPacketTypeAudio) :
    s.step packet = { s with
      audioOriginalTimestamp := packet.time
      audioCorrectedTimestamp :=
        if s.audioOriginalTimestamp = -1 then packet.time
        else audioPace.advance s.audioCorrectedTimestamp (packet.time - s.audioOriginalTimestamp) } := by
  rw [step, correctTimestamp_audio h htype]
  rfl

end TimeCorrector

namespace MediaStream
variable {k : MediaStream} {s : TimeCorrector} {packet : Packet} {packets : List Packet}

theorem step_other (h : packet.Media) (htype : packet.type ≠ k.type) :
    k.original (s.step packet) = k.original s ∧ k.corrected (s.step packet) = k.corrected s := by
  cases k with
  | video =>
      rw [TimeCorrector.step_audio h (h.type.resolve_left htype)]
      simp only [original, corrected, and_self]
  | audio =>
      rw [TimeCorrector.step_video h (h.type.resolve_right htype)]
      simp only [original, corrected, and_self]

section Own
variable (h : packet.Media) (htype : packet.type = k.type)
include h htype

theorem step_original : k.original (s.step packet) = packet.time := by
  cases k with
  | video => rw [TimeCorrector.step_video h htype, original]
  | audio => rw [TimeCorrector.step_audio h htype, original]

theorem correctTimestamp_value : (s.correctTimestamp packet).1 = uint32 (k.corrected (s.step packet)) := by
  cases k with
  | video =>
      rw [TimeCorrector.step_video h htype, TimeCorrector.correctTimestamp_video h htype, corrected,
        TimeCorrector.correctVideoTimeStampByVideo]
  | audio =>
      rw [TimeCorrector.step_audio h htype, TimeCorrector.correctTimestamp_audio h htype, corrected,
        TimeCorrector.correctAudioTimeStampByAudio]

theorem step_corrected (hseen : k.original s ≠ -1) :
    k.corrected (s.step packet) = k.pace.advance (k.corrected s) (packet.time - k.original s) := by
  cases k with
  | video =>
      have hbase : s.videoBase packet = (s.videoOriginalTimestamp, s.videoCorrectedTimestamp) := if_neg hseen
      rw [TimeCorrector.step_video h htype, hbase, corrected, corrected, original, pace]
  | audio =>
      rw [TimeCorrector.step_audio h htype, corrected, corrected, original, pace]
      exact if_neg hseen

theorem step_first (hfirst : k.original s = -1) (hown : k.reanchors s packet = false) :
    k.corrected (s.step packet) = packet.time := by
  cases k with
  | video =>
      have hzero : videoPace.Fine (packet.time - packet.time) := by
        rw [Int.sub_self]
        decide
      have hbase : s.videoBase packet = (packet.time, packet.time) :=
        (if_pos hfirst).trans (if_neg (ne_true_of_eq_false hown))
      rw [TimeCorrector.step_video h htype, hbase, corrected]
      dsimp only
      exact Pace.advance_exact hzero h.time_nonneg
  | audio =>
      rw [TimeCorrector.step_audio h htype, corrected]
      exact if_pos hfirst

end Own

theorem step_nonneg (h : packet.Media) (hs : 0 ≤ k.corrected s) : 0 ≤ k.corrected (s.step packet) := by
  by_cases htype : packet.type = k.type
  · cases k with
    | video =>
        rw [TimeCorrector.step_video h htype, corrected]
        exact Pace.advance_nonneg
    | audio =>
        by_cases hseen : s.audioOriginalTimestamp = -1
        · rw [step_first h htype hseen rfl]
          exact h.time_nonneg
        · rw [step_corrected h htype hseen]
          exact Pace.advance_nonneg
  · rw [(step_other h htype).2]
    exact hs

theorem run_nonneg (h : ∀ packet ∈ packets, packet.Media) (hs : 0 ≤ k.corrected s) :
    0 ≤ k.corrected (s.run packets) := by
  induction packets generalizing s with
  | nil => exact hs
  | cons packet packets ih =>
      exact ih (fun q hq => h q (List.mem_cons_of_mem _ hq)) (step_nonneg (h packet List.mem_cons_self) hs)

theorem observed_own {β : Type} {see : Nat × TimeCorrector → β} (htype : packet.type = k.type) :
    k.observed see s (packet :: packets) = see (s.correctTimestamp packet) :: k.observed see (s.step packet) packets :=
  if_pos htype

theorem observed_other {β : Type} {see : Nat × TimeCorrector → β} (htype : packet.type ≠ k.type) :
    k.observed see s (packet :: packets) = k.observed see (s.step packet) packets :=
  if_neg htype

theorem times_own (htype : packet.type = k.type) : k.times (packet :: packets) = packet.time :: k.times packets := by
  rw [times, List.filter_cons, if_pos (decide_eq_true htype), List.map_cons, times]

theorem times_other (htype : packet.type ≠ k.type) : k.times (packet :: packets) = k.times packets := by
  rw [times, List.filter_cons, if_neg (by rw [decide_eq_true_eq]; exact htype), times]

theorem returned_eq (h : ∀ packet ∈ packets, packet.Media) :
    k.returned s packets = (k.values s packets).map uint32 := by
  unfold returned values
  induction packets generalizing s with
  | nil => rfl
  | cons packet packets ih =>
      have hrest := ih (s := s.step packet) fun q hq => h q (List.mem_cons_of_mem _ hq)
      by_cases htype : packet.type = k.type
      · rw [observed_own htype, observed_own htype, List.map_cons, hrest,
          correctTimestamp_value (h packet List.mem_cons_self) htype]
        rfl
      · rw [observed_other htype, observed_other htype, hrest]

theorem values_follow (h : ∀ packet ∈ packets, packet.Media) (hseen : k.original s ≠ -1) :
    k.values s packets = k.pace.follow (k.original s) (k.corrected s) (k.times packets) := by
  unfold values
  induction packets generalizing s with
  | nil => rfl
  | cons packet packets ih =>
      have hmedia := h packet List.mem_cons_self
      have hrest := fun hseen' => ih (s := s.step packet) (fun q hq => h q (List.mem_cons_of_mem _ hq)) hseen'
      by_cases htype : packet.type = k.type
      · have horiginal := step_original (s := s) hmedia htype
        have hcorrected := step_corrected hmedia htype hseen
        rw [observed_own htype, times_own htype, hrest (horiginal ▸ hmedia.time_ne), horiginal, hcorrected, Pace.follow]
        exact congrArg (· :: _) hcorrected
      · obtain ⟨horiginal, hcorrected⟩ := step_other (s := s) hmedia htype
        rw [observed_other htype, times_other htype, hrest (horiginal ▸ hseen), horiginal, hcorrected]

/-- The first packet of the stream keeps its own time. -/
def KeepsOwn (k : MediaStream) (s : TimeCorrector) (packets : List Packet) : Prop :=
  ∀ front packet rest, packets = front ++ packet :: rest → (∀ q ∈ front, q.type ≠ k.type) → packet.type = k.type →
    k.reanchors (s.run front) packet = false

/-- The first packet of a stream starts its clock. -/
theorem values_start (h : ∀ packet ∈ packets, packet.Media) (hfirst : k.original s = -1)
    (hs : 0 ≤ k.corrected s) :
    k.values s packets = [] ∧ k.times packets = [] ∨
      ∃ time corrected times, k.times packets = time :: times ∧ 0 ≤ corrected ∧
        k.values s packets = corrected :: k.pace.follow time corrected times ∧
        (k.KeepsOwn s packets → corrected = time) := by
  induction packets generalizing s with
  | nil => exact .inl ⟨rfl, rfl⟩
  | cons packet packets ih =>
      have hmedia := h packet List.mem_cons_self
      have hrest : ∀ q ∈ packets, q.Media := fun q hq => h q (List.mem_cons_of_mem _ hq)
      by_cases htype : packet.type = k.type
      · have horiginal := step_original (s := s) hmedia htype
        refine .inr ⟨packet.time, k.corrected (s.step packet), k.times packets, times_own htype,
          step_nonneg hmedia hs, ?_, fun hown => ?_⟩
        · rw [← horiginal, ← values_follow hrest (horiginal ▸ hmedia.time_ne)]
          exact observed_own htype
        · exact step_first hmedia htype hfirst
            (hown [] packet packets rfl (fun q hq => absurd hq List.not_mem_nil) htype)
      · obtain ⟨horiginal, -⟩ := step_other (s := s) hmedia htype
        have hvalues : k.values s (packet :: packets) = k.values (s.step packet) packets := observed_other htype
        rw [hvalues, times_other htype]
        rcases ih hrest (horiginal.trans hfirst) (step_nonneg hmedia hs) with
          hnone | ⟨time, c, times, htimes, hc, hclock, hown⟩
        · exact .inl hnone
        · refine .inr ⟨time, c, times, htimes, hc, hclock, fun hkeeps => hown fun front p rest hsplit hfront hp => ?_⟩
          refine hkeeps (packet :: front) p rest (by rw [hsplit]; rfl) (fun q hq => ?_) hp
          rcases List.mem_cons.mp hq with rfl | hq
          · exact htype
          · exact hfront q hq

/-- Consecutive times of a stream differ by less than its bound. -/
def Smooth (k : MediaStream) (times : List Int) : Prop := times.IsChain fun a b => k.pace.Fine (b - a)

theorem mem_times (h : ∀ packet ∈ packets, packet.Media) {t : Int} (ht : t ∈ k.times packets) :
    0 ≤ t ∧ (uint32 t : Int) = t := by
  obtain ⟨packet, hpacket, rfl⟩ := List.mem_map.mp ht
  have hmedia := h packet (List.mem_of_mem_filter hpacket)
  exact ⟨hmedia.time_nonneg, hmedia.uint32_time⟩

theorem corrected_initial (k : MediaStream) : k.corrected {} = 0 := by
  cases k with
  | video => rfl
  | audio => rfl

theorem original_initial (k : MediaStream) : k.original {} = -1 := by
  cases k with
  | video => rfl
  | audio => rfl

/-- Correction is smooth and, where nothing is to be corrected, faithful: for both streams of any sequence of
packets, the corrected times are never negative and go on in small steps, and they are the raw times, and so are
the values returned, where those go on in small steps and the first one was kept. -/
theorem correction_smooth (k : MediaStream) (packets : List Packet) (h : ∀ packet ∈ packets, packet.Media) :
    (∀ front, front <+: packets → 0 ≤ k.corrected (({} : TimeCorrector).run front)) ∧
      k.Smooth (k.values {} packets) ∧ k.returned {} packets = (k.values {} packets).map uint32 ∧
      (k.Smooth (k.times packets) → k.KeepsOwn {} packets → k.values {} packets = k.times packets ∧
        (k.returned {} packets).map Int.ofNat = k.times packets) := by
  have hzero : 0 ≤ k.corrected {} := by rw [corrected_initial]
  have hreturned := returned_eq (k := k) (s := {}) h
  refine ⟨fun front hfront => run_nonneg (fun q hq => h q (hfront.subset hq)) hzero, ?_, hreturned,
    fun hsmooth hown => ?_⟩
  · rcases values_start h k.original_initial hzero with ⟨hvalues, -⟩ | ⟨time, c, times, -, hc, hvalues, -⟩
    · rw [hvalues]
      exact .nil
    · rw [hvalues]
      exact Pace.follow_chain hc
  · have hraw : k.values {} packets = k.times packets := by
      rcases values_start h k.original_initial hzero with
        ⟨hvalues, htimes⟩ | ⟨time, c, times, htimes, -, hvalues, hkeeps⟩
      · rw [hvalues, htimes]
      · rw [htimes] at hsmooth
        have hpos : ∀ t ∈ times, 0 ≤ t := fun t ht => (mem_times h (htimes ▸ List.mem_cons_of_mem _ ht)).1
        rw [hvalues, htimes, hkeeps hown, Pace.follow_exact hsmooth hpos]
    refine ⟨hraw, ?_⟩
    rw [hreturned, hraw, List.map_map]
    exact List.map_congr_left (g := id) (fun t ht => (mem_times h ht).2) |>.trans (List.map_id _)

/-- A video packet at 40 ms, behind an audio packet at 0 and one that jumps to 5000. -/
theorem correction_smooth_jump : audio.Smooth (audio.values {}
    [{ capacity := 0, type := 2, timestamp := 0 }, { capacity := 0, type := 2, timestamp := 5000 },
      { capacity := 0, type := 1, timestamp := 40 }]) :=
  (correction_smooth audio _ (by
    intro packet hpacket
    simp only [List.mem_cons, List.not_mem_nil, or_false] at hpacket
    rcases hpacket with rfl | rfl | rfl
    · exact ⟨rfl, .inr rfl, by decide⟩
    · exact ⟨rfl, .inr rfl, by decide⟩
    · exact ⟨rfl, .inl rfl, by decide⟩)).2.1

end MediaStream
end TmmsServer
