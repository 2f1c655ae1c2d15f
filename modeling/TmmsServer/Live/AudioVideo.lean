import TmmsServer.Live.TimeCorrector

/-!
# Audio and video on one timeline

How the two streams are meant to be joined: a first video packet takes the time of
the audio where it is too far away, and the audio follows the video wherever a video
packet is in front of it. `CorrectTimestamp` compares raw times for the first, and
lets the audio follow itself alone. Where that comes to the same is said by the raw
times of the packets (`Drift`), without the corrector.
-/
namespace TmmsServer
open Lib Lib.Words

namespace TimeCorrector
variable {s r : TimeCorrector} {packet : Packet} {packets : List Packet}

/-! ## The first video packet -/

/-- A video packet is within the bound of the audio. -/
def Joins (s : TimeCorrector) : Prop :=
  -kMaxVideoDeltaTime < s.videoCorrectedTimestamp - s.audioCorrectedTimestamp ∧
    s.videoCorrectedTimestamp - s.audioCorrectedTimestamp < kMaxVideoDeltaTime

instance (s : TimeCorrector) : Decidable s.Joins := instDecidableAnd

theorem int32_small {x : Int} (h : -kMaxVideoDeltaTime < x ∧ x < kMaxVideoDeltaTime) : int32 x = x := by
  obtain ⟨hlow, hhigh⟩ := h
  unfold kMaxVideoDeltaTime at hlow hhigh
  exact int32_of_lt (by omega) (by omega)

/-- A packet that takes the time of the audio is that far from it that the default comes on top. -/
theorem step_reanchored (h : packet.Media) (htype : packet.type = kPacketTypeVideo)
    (hfirst : s.videoOriginalTimestamp = -1) (hs : 0 ≤ s.audioCorrectedTimestamp) (hre : s.reanchors packet = true) :
    (s.step packet).videoCorrectedTimestamp = s.audioCorrectedTimestamp + kDefaultVideoDeltaTime := by
  have hbase : s.videoBase packet = (s.audioOriginalTimestamp, s.audioCorrectedTimestamp) :=
    (if_pos hfirst).trans (if_pos hre)
  have hfar : ¬ videoPace.Fine (packet.time - s.audioOriginalTimestamp) := by
    rintro ⟨hlow, hhigh⟩
    have hsmall : -kMaxVideoDeltaTime < s.audioOriginalTimestamp - packet.time ∧
        s.audioOriginalTimestamp - packet.time < kMaxVideoDeltaTime := by
      change -kMaxVideoDeltaTime < _ at hlow
      change _ < kMaxVideoDeltaTime at hhigh
      exact ⟨by omega, by omega⟩
    have hdelta := of_decide_eq_true (Bool.and_eq_true_iff.mp hre).2
    rw [int32_small hsmall] at hdelta
    omega
  have hpos : ¬ s.audioCorrectedTimestamp + kDefaultVideoDeltaTime < 0 := by
    unfold kDefaultVideoDeltaTime
    omega
  rw [step_video h htype, hbase]
  dsimp only
  rw [Pace.advance, Pace.step, if_neg hfar]
  exact if_neg hpos

theorem joins_iff (h : packet.Media) (htype : packet.type = kPacketTypeVideo)
    (hfirst : s.videoOriginalTimestamp = -1) (hs : 0 ≤ s.audioCorrectedTimestamp) :
    (s.step packet).Joins ↔ s.reanchors packet = true ∨
      (-kMaxVideoDeltaTime < packet.time - s.audioCorrectedTimestamp ∧
        packet.time - s.audioCorrectedTimestamp < kMaxVideoDeltaTime) := by
  have haudio : (s.step packet).audioCorrectedTimestamp = s.audioCorrectedTimestamp := by rw [step_video h htype]
  unfold Joins
  rw [haudio]
  cases hre : s.reanchors packet with
  | true =>
      rw [step_reanchored h htype hfirst hs hre]
      refine iff_of_true ?_ (.inl rfl)
      unfold kMaxVideoDeltaTime kDefaultVideoDeltaTime
      exact ⟨by omega, by omega⟩
  | false =>
      have hown : (s.step packet).videoCorrectedTimestamp = packet.time :=
        MediaStream.step_first (k := .video) h htype hfirst hre
      rw [hown]
      exact (or_iff_right Bool.false_ne_true).symm

theorem run_audio (h : ∀ packet ∈ packets, packet.Media ∧ packet.type = kPacketTypeAudio) :
    (s.run packets).videoOriginalTimestamp = s.videoOriginalTimestamp := by
  induction packets generalizing s with
  | nil => rfl
  | cons packet packets ih =>
      obtain ⟨hmedia, htype⟩ := h packet List.mem_cons_self
      have hrest := ih (s := s.step packet) fun q hq => h q (List.mem_cons_of_mem _ hq)
      rw [step_audio hmedia htype] at hrest
      rw [← hrest, run, List.foldl_cons, ← step_audio hmedia htype]
      rfl

/-- Behind any audio packets, a first video packet joins the audio exactly when it takes its time or is
within the bound of the corrected audio by itself. -/
theorem firstVideo_joins_iff (packets : List Packet) (packet : Packet)
    (haudio : ∀ p ∈ packets, p.Media ∧ p.type = kPacketTypeAudio)
    (hmedia : packet.Media) (hvideo : packet.type = kPacketTypeVideo) :
    ((({} : TimeCorrector).run packets).step packet).Joins ↔
      (({} : TimeCorrector).run packets).reanchors packet = true ∨
        (-kMaxVideoDeltaTime < packet.time - (({} : TimeCorrector).run packets).audioCorrectedTimestamp ∧
          packet.time - (({} : TimeCorrector).run packets).audioCorrectedTimestamp < kMaxVideoDeltaTime) := by
  have hnonneg : 0 ≤ (({} : TimeCorrector).run packets).audioCorrectedTimestamp :=
    MediaStream.run_nonneg (k := .audio) (fun p hp => (haudio p hp).1) (Int.le_refl 0)
  exact joins_iff hmedia hvideo (run_audio haudio) hnonneg

/-- An audio packet, and a video packet far behind it. -/
theorem firstVideo_joins_iff_far : ((({} : TimeCorrector).run [{ capacity := 0, type := 2, timestamp := 40 }]).step
    { capacity := 0, type := 1, timestamp := 5000 }).Joins :=
  (firstVideo_joins_iff [{ capacity := 0, type := 2, timestamp := 40 }] { capacity := 0, type := 1, timestamp := 5000 }
    (by
      intro p hp
      obtain rfl := List.mem_singleton.mp hp
      exact ⟨⟨rfl, .inr rfl, by decide⟩, rfl⟩)
    ⟨rfl, .inl rfl, by decide⟩ rfl).mpr (.inl (by decide))

/-- The audio has jumped by ten seconds, and a video packet with the raw time of the last one does not
follow its correction. -/
theorem jumped_not_joined : ¬ ∀ (packets : List Packet) (packet : Packet),
    (∀ p ∈ packets, p.Media ∧ p.type = kPacketTypeAudio) → packets ≠ [] → packet.Media →
      packet.type = kPacketTypeVideo → ((({} : TimeCorrector).run packets).step packet).Joins := by
  intro h
  refine absurd (h [{ capacity := 0, type := 2, timestamp := 0 }, { capacity := 0, type := 2, timestamp := 10000 }]
    { capacity := 0, type := 1, timestamp := 10000 } ?_ (List.cons_ne_nil _ _) ⟨rfl, .inl rfl, by decide⟩ rfl)
    (by decide)
  intro p hp
  rcases List.mem_pair.mp hp with rfl | rfl
  · exact ⟨⟨rfl, .inr rfl, by decide⟩, rfl⟩
  · exact ⟨⟨rfl, .inr rfl, by decide⟩, rfl⟩

end TimeCorrector

/-! ## The raw times alone -/

/-- The last packet of a stream: its raw time, and how far the jumps up to it have moved the stream. -/
structure Track where
  time : Int := -1
  moved : Int := 0

/-- The packet at `t` is the next one. A jump to it is replaced by the default, and nothing is moved below zero. -/
def Track.next (track : Track) (pace : Pace) (t : Int) : Track := ⟨t, pace.move track.moved track.time t⟩

/-- The two streams by their raw times. -/
structure Drift where
  video : Track := {}
  audio : Track := {}

namespace Drift

def track (d : Drift) : MediaStream → Track
  | .video => d.video
  | .audio => d.audio

/-- A first video packet that jumps away from the last audio packet goes on from that one. -/
def videoBase (d : Drift) (t : Int) : Track :=
  if d.video.time = -1 then
    if d.audio.time ≠ -1 ∧ ¬ videoPace.Fine (int32 (d.audio.time - t)) then d.audio else ⟨t, 0⟩
  else d.video

def audioBase (d : Drift) (t : Int) : Track := if d.audio.time = -1 then ⟨t, 0⟩ else d.audio

def step (d : Drift) (packet : Packet) : Drift :=
  if packet.type = kPacketTypeVideo then { d with video := (d.videoBase packet.time).next videoPace packet.time }
  else { d with audio := (d.audioBase packet.time).next audioPace packet.time }

/-- What an audio packet with the raw time `t` right behind a video packet asks of the two streams, by where it
jumps: near to both it asks that they have been moved by the same, or both to zero; far from both, that their
last packets have been moved to one time; near to one of them, that the default brings the other one there.
A first audio packet has not been moved. -/
def InStep (d : Drift) (t : Int) : Prop :=
  if d.audio.time = -1 then
    if audioPace.Fine (t - d.video.time) then d.video.moved = 0 ∨ t = 0 ∧ d.video.moved ≤ 0
    else t = d.video.time + d.video.moved + kDefaultAudioDeltaTime
  else if audioPace.Fine (t - d.audio.time) then
    if audioPace.Fine (t - d.video.time) then
      d.audio.moved = d.video.moved ∨ t + d.audio.moved ≤ 0 ∧ t + d.video.moved ≤ 0
    else t + d.audio.moved = d.video.time + d.video.moved + kDefaultAudioDeltaTime
  else if audioPace.Fine (t - d.video.time) then
    t + d.video.moved = d.audio.time + d.audio.moved + kDefaultAudioDeltaTime
  else d.audio.time + d.audio.moved = d.video.time + d.video.moved

instance (d : Drift) (t : Int) : Decidable (d.InStep t) := by
  unfold InStep
  infer_instance

/-- The streams are in step wherever an audio packet comes right behind a video packet. -/
def Level (d : Drift) (behindVideo : Bool) : List Packet → Prop
  | [] => True
  | packet :: packets =>
      (behindVideo = true → packet.type = kPacketTypeAudio → d.InStep packet.time) ∧
        (d.step packet).Level (packet.type == kPacketTypeVideo) packets

variable {d : Drift} {packet : Packet}

theorem step_video (htype : packet.type = kPacketTypeVideo) :
    d.step packet = { d with video := (d.videoBase packet.time).next videoPace packet.time } := if_pos htype

theorem step_audio (htype : packet.type = kPacketTypeAudio) :
    d.step packet = { d with audio := (d.audioBase packet.time).next audioPace packet.time } :=
  if_neg (by rw [htype]; decide)

/-- The audio and the video move the packet by the same exactly when they are in step, case by case of its jumps. -/
theorem inStep_iff {t : Int} (ht : 0 ≤ t) (hvideo : 0 ≤ d.video.time + d.video.moved)
    (haudio : d.audio.time ≠ -1 → 0 ≤ d.audio.time + d.audio.moved) :
    ((d.audioBase t).next audioPace t).moved = audioPace.move d.video.moved d.video.time t ↔ d.InStep t := by
  have hpos : 0 < kDefaultAudioDeltaTime := by decide
  have hdefault : audioPace.default = kDefaultAudioDeltaTime := rfl
  unfold InStep audioBase Track.next
  dsimp only
  split
  next =>
    have hstill : audioPace.move 0 t t = 0 := Pace.move_still ht (by rw [Int.sub_self]; decide)
    rw [hstill]
    unfold Pace.move
    split
    next => omega
    next => omega
  next hseen =>
    have haudio := haudio hseen
    unfold Pace.move
    split
    next =>
      split
      next => omega
      next => omega
    next =>
      split
      next => omega
      next => omega

end Drift

namespace TimeCorrector
variable {s r : TimeCorrector} {d : Drift} {packet : Packet} {packets : List Packet}

/-- The corrected time of an audio packet, from the last audio packet and from the last video packet. -/
def audioNext (s : TimeCorrector) (packet : Packet) : Int :=
  if s.audioOriginalTimestamp = -1 then packet.time
  else audioPace.advance s.audioCorrectedTimestamp (packet.time - s.audioOriginalTimestamp)

def videoNext (s : TimeCorrector) (packet : Packet) : Int :=
  audioPace.advance s.videoCorrectedTimestamp (packet.time - s.videoOriginalTimestamp)

theorem videoBase_nonneg (hs : ∀ k : MediaStream, 0 ≤ k.corrected s) (h : packet.Media) :
    0 ≤ (s.videoBase packet).2 := by
  unfold videoBase
  split
  · split
    · exact hs .audio
    · dsimp only
      exact h.time_nonneg
  · exact hs .video

/-- What the corrector keeps is what the raw times say. -/
structure Tracks (d : Drift) (s : TimeCorrector) : Prop where
  videoTime : d.video.time = s.videoOriginalTimestamp
  videoCorrected : s.videoOriginalTimestamp ≠ -1 → s.videoCorrectedTimestamp = d.video.time + d.video.moved
  audioTime : d.audio.time = s.audioOriginalTimestamp
  audioCorrected : s.audioOriginalTimestamp ≠ -1 → s.audioCorrectedTimestamp = d.audio.time + d.audio.moved

namespace Tracks

theorem initial : Tracks {} {} := ⟨rfl, fun hseen => absurd rfl hseen, rfl, fun hseen => absurd rfl hseen⟩

variable (h : Tracks d s)
include h

theorem reanchors_iff (packet : Packet) : s.reanchors packet = true ↔
    d.audio.time ≠ -1 ∧ ¬ videoPace.Fine (int32 (d.audio.time - packet.time)) := by
  unfold reanchors
  rw [h.audioTime, Bool.and_eq_true_iff, bne_iff_ne, decide_eq_true_iff]
  refine and_congr_right fun _ => ?_
  change _ ↔ ¬ (-kMaxVideoDeltaTime < _ ∧ _ < kMaxVideoDeltaTime)
  omega

/-- A video packet goes on from where its track does. -/
theorem videoBase (packet : Packet) : s.videoBase packet =
    ((d.videoBase packet.time).time, (d.videoBase packet.time).time + (d.videoBase packet.time).moved) := by
  unfold TimeCorrector.videoBase Drift.videoBase
  rw [h.videoTime]
  split
  next =>
    by_cases hre : s.reanchors packet = true
    · have hjumps := (h.reanchors_iff packet).mp hre
      have hseen : s.audioOriginalTimestamp ≠ -1 := h.audioTime ▸ hjumps.1
      rw [if_pos hre, if_pos hjumps, h.audioCorrected hseen, h.audioTime]
    · rw [if_neg hre, if_neg (mt (h.reanchors_iff packet).mpr hre)]
      dsimp only
      rw [Int.add_zero]
  next hseen => rw [h.videoCorrected hseen, h.videoTime]

theorem audioNext (hs : ∀ k : MediaStream, 0 ≤ k.corrected s) (hmedia : packet.Media) :
    s.audioNext packet = packet.time + ((d.audioBase packet.time).next audioPace packet.time).moved := by
  unfold TimeCorrector.audioNext Drift.audioBase
  rw [h.audioTime]
  split
  next =>
    have hstill : audioPace.move 0 packet.time packet.time = 0 :=
      Pace.move_still hmedia.time_nonneg (by rw [Int.sub_self]; decide)
    rw [Track.next, hstill, Int.add_zero]
  next hseen =>
    have hnonneg : 0 ≤ s.audioCorrectedTimestamp := hs .audio
    rw [h.audioCorrected hseen] at hnonneg ⊢
    rw [← h.audioTime, Pace.advance_move hnonneg, Track.next]

theorem step (hs : ∀ k : MediaStream, 0 ≤ k.corrected s) (hmedia : packet.Media) :
    Tracks (d.step packet) (s.step packet) := by
  rcases hmedia.type with htype | htype
  · have hbase : 0 ≤ (s.videoBase packet).2 := videoBase_nonneg hs hmedia
    have hnext := h.videoBase packet
    rw [hnext] at hbase
    rw [Drift.step_video htype, TimeCorrector.step_video hmedia htype, hnext]
    refine ⟨?_, fun _ => ?_, h.audioTime, h.audioCorrected⟩
    · rw [Track.next]
    · dsimp only
      rw [Pace.advance_move hbase, Track.next]
  · have hnext := h.audioNext hs hmedia
    unfold TimeCorrector.audioNext at hnext
    rw [Drift.step_audio htype, TimeCorrector.step_audio hmedia htype, hnext]
    refine ⟨h.videoTime, h.videoCorrected, ?_, fun _ => ?_⟩
    · rw [Track.next]
    · rw [Track.next]

end Tracks

/-! ## The audio behind a video packet -/

/-- `CorrectTimestamp` as the README has it: audio goes by way of `CorrectAudioTimeStampByVideo`. -/
def readmeTimestamp (s : TimeCorrector) (packet : Packet) : Nat × TimeCorrector :=
  if isCodecHeader packet then (0, s)
  else if packet.type = kPacketTypeVideo then s.correctVideoTimeStampByVideo packet
  else if packet.type = kPacketTypeAudio then s.correctAudioTimeStampByVideo packet
  else (0, s)

/-- The values returned for a row of packets. -/
def returns (correct : TimeCorrector → Packet → Nat × TimeCorrector) : TimeCorrector → List Packet → List Nat
  | _, [] => []
  | s, packet :: packets => (correct s packet).1 :: returns correct (correct s packet).2 packets

/-- The two have the same times for both streams. -/
structure SameTimes (s r : TimeCorrector) : Prop where
  videoOriginal : r.videoOriginalTimestamp = s.videoOriginalTimestamp
  videoCorrected : r.videoCorrectedTimestamp = s.videoCorrectedTimestamp
  audioOriginal : r.audioOriginalTimestamp = s.audioOriginalTimestamp
  audioCorrected : r.audioCorrectedTimestamp = s.audioCorrectedTimestamp

/-- What the counter of the second one says about the packet in front. -/
def Counts (behindVideo : Bool) (r : TimeCorrector) : Prop :=
  if behindVideo then r.audioNumbersBetweenVideo = 0 ∧ r.videoOriginalTimestamp ≠ -1
  else 0 < r.audioNumbersBetweenVideo ∨ r.videoOriginalTimestamp = -1 ∧ r.audioOriginalTimestamp = -1

theorem readmeTimestamp_video (h : packet.Media) (htype : packet.type = kPacketTypeVideo) :
    r.readmeTimestamp packet = r.correctVideoTimeStampByVideo packet := by
  rw [readmeTimestamp, h.noHeader, if_neg Bool.false_ne_true, if_pos htype]

theorem readmeTimestamp_audio (h : packet.Media) (htype : packet.type = kPacketTypeAudio) :
    r.readmeTimestamp packet = r.correctAudioTimeStampByVideo packet := by
  have hvideo : packet.type ≠ kPacketTypeVideo := by
    rw [htype]
    decide
  rw [readmeTimestamp, h.noHeader, if_neg Bool.false_ne_true, if_neg hvideo, if_pos htype]

/-- The corrected time of a video packet. -/
def videoTime (s : TimeCorrector) (packet : Packet) : Int :=
  videoPace.advance (s.videoBase packet).2 (packet.time - (s.videoBase packet).1)

theorem correctVideo_next (s : TimeCorrector) (packet : Packet) :
    s.correctVideoTimeStampByVideo packet = (uint32 (s.videoTime packet), { s with
      audioNumbersBetweenVideo := 0
      videoOriginalTimestamp := packet.time
      videoCorrectedTimestamp := s.videoTime packet }) := rfl

theorem correctAudio_next (s : TimeCorrector) (packet : Packet) :
    s.correctAudioTimeStampByAudio packet = (uint32 (s.audioNext packet), { s with
      audioOriginalTimestamp := packet.time
      audioCorrectedTimestamp := s.audioNext packet }) := rfl

namespace SameTimes
variable (hsame : SameTimes s r)
include hsame

theorem videoTime_eq (packet : Packet) : r.videoTime packet = s.videoTime packet := by
  have hbase : r.videoBase packet = s.videoBase packet := by
    unfold videoBase reanchors
    rw [hsame.videoOriginal, hsame.videoCorrected, hsame.audioOriginal, hsame.audioCorrected]
  rw [videoTime, videoTime, hbase]

theorem audioNext_eq (packet : Packet) : r.audioNext packet = s.audioNext packet := by
  rw [audioNext, audioNext, hsame.audioOriginal, hsame.audioCorrected]

theorem video (value : Nat) (time corrected : Int) :
    SameTimes (value, { s with
      audioNumbersBetweenVideo := 0
      videoOriginalTimestamp := time
      videoCorrectedTimestamp := corrected }).2 (value, { r with
      audioNumbersBetweenVideo := 0
      videoOriginalTimestamp := time
      videoCorrectedTimestamp := corrected }).2 :=
  ⟨rfl, rfl, hsame.audioOriginal, hsame.audioCorrected⟩

theorem audio (n : Nat) (time corrected : Int) :
    SameTimes { s with
      audioOriginalTimestamp := time
      audioCorrectedTimestamp := corrected } { r with
      audioNumbersBetweenVideo := n
      audioOriginalTimestamp := time
      audioCorrectedTimestamp := corrected } :=
  ⟨hsame.videoOriginal, hsame.videoCorrected, rfl, rfl⟩

theorem correctVideo (packet : Packet) :
    (r.correctVideoTimeStampByVideo packet).1 = (s.correctVideoTimeStampByVideo packet).1 ∧
      SameTimes (s.correctVideoTimeStampByVideo packet).2 (r.correctVideoTimeStampByVideo packet).2 := by
  rw [correctVideo_next, correctVideo_next, hsame.videoTime_eq]
  exact ⟨rfl, hsame.video _ _ _⟩

end SameTimes

theorem counts_correctVideo (r : TimeCorrector) (h : packet.Media) :
    Counts true (r.correctVideoTimeStampByVideo packet).2 := by
  rw [correctVideo_next, Counts, if_pos rfl]
  dsimp only
  exact ⟨rfl, h.time_ne⟩

/-- On an audio packet the second one goes on from the audio, except right behind a video packet. -/
theorem readme_audio {behindVideo : Bool} (hsame : SameTimes s r) (hcount : Counts behindVideo r) (packet : Packet) :
    ∃ n, 0 < n ∧ r.correctAudioTimeStampByVideo packet =
      (uint32 (if behindVideo then s.videoNext packet else s.audioNext packet), { r with
        audioNumbersBetweenVideo := n
        audioOriginalTimestamp := packet.time
        audioCorrectedTimestamp := if behindVideo then s.videoNext packet else s.audioNext packet }) := by
  have haudio : ∀ n, ({ r with audioNumbersBetweenVideo := n } : TimeCorrector).audioNext packet = s.audioNext packet :=
    fun n => hsame.audioNext_eq packet
  refine ⟨r.audioNumbersBetweenVideo + 1, Nat.succ_pos _, ?_⟩
  unfold correctAudioTimeStampByVideo
  dsimp only
  cases behindVideo with
  | true =>
      rw [Counts, if_pos rfl] at hcount
      obtain ⟨hzero, hseen⟩ := hcount
      rw [if_neg (by rw [hzero]; decide), if_neg hseen, if_pos rfl, videoNext, hsame.videoOriginal,
        hsame.videoCorrected]
  | false =>
      rw [Counts, if_neg Bool.false_ne_true] at hcount
      rw [if_neg Bool.false_ne_true]
      by_cases hmore : 1 < r.audioNumbersBetweenVideo + 1
      · rw [if_pos hmore, correctAudio_next, haudio]
      · -- neither stream has begun
        obtain ⟨hvideo, hfirst⟩ := hcount.resolve_left fun hpos => hmore (Nat.succ_lt_succ hpos)
        have hraw : s.audioNext packet = packet.time := if_pos (hsame.audioOriginal ▸ hfirst)
        rw [if_neg hmore, if_pos hvideo, hraw]

/-- The audio comes to the same time from both streams exactly when they are in step. -/
theorem next_eq_iff (htracks : Tracks d s) (hs : ∀ k : MediaStream, 0 ≤ k.corrected s)
    (hseen : s.videoOriginalTimestamp ≠ -1) (h : packet.Media) :
    s.audioNext packet = s.videoNext packet ↔ d.InStep packet.time := by
  have hvideo : 0 ≤ d.video.time + d.video.moved := htracks.videoCorrected hseen ▸ hs .video
  have haudio (haudio : d.audio.time ≠ -1) : 0 ≤ d.audio.time + d.audio.moved :=
    htracks.audioCorrected (htracks.audioTime ▸ haudio) ▸ hs .audio
  have hnext : s.videoNext packet = packet.time + audioPace.move d.video.moved d.video.time packet.time := by
    rw [videoNext, htracks.videoCorrected hseen, ← htracks.videoTime, Pace.advance_move hvideo]
  rw [htracks.audioNext hs h, hnext, Int.add_right_inj]
  exact Drift.inStep_iff h.time_nonneg hvideo haudio

theorem audioNext_nonneg (h : packet.Media) : 0 ≤ s.audioNext packet := by
  unfold audioNext
  split
  · exact h.time_nonneg
  · exact Pace.advance_nonneg

/-- No corrected time is beyond the bound. -/
def Below (s : TimeCorrector) (bound : Int) : Prop := ∀ k : MediaStream, k.corrected s ≤ bound

theorem audioNext_lt (hs : ∀ k : MediaStream, 0 ≤ k.corrected s) {bound : Int} (hbelow : s.Below bound)
    (htime : packet.time ≤ bound) : s.audioNext packet < bound + kMaxAudioDeltaTime := by
  have hmax : 0 < kMaxAudioDeltaTime := by decide
  unfold audioNext
  split
  · omega
  · have hlt : audioPace.advance s.audioCorrectedTimestamp (packet.time - s.audioOriginalTimestamp) <
        s.audioCorrectedTimestamp + kMaxAudioDeltaTime := Pace.advance_lt (hs .audio)
    have hle : s.audioCorrectedTimestamp ≤ bound := hbelow .audio
    omega

theorem videoNext_lt (hs : ∀ k : MediaStream, 0 ≤ k.corrected s) {bound : Int} (hbelow : s.Below bound) :
    s.videoNext packet < bound + kMaxAudioDeltaTime := by
  have hlt : s.videoNext packet < s.videoCorrectedTimestamp + kMaxAudioDeltaTime := Pace.advance_lt (hs .video)
  have hle : s.videoCorrectedTimestamp ≤ bound := hbelow .video
  omega

theorem videoTime_lt (hs : ∀ k : MediaStream, 0 ≤ k.corrected s) {bound : Int} (hbelow : s.Below bound)
    (h : packet.Media) (htime : packet.time ≤ bound) : s.videoTime packet < bound + kMaxVideoDeltaTime := by
  have hnonneg := videoBase_nonneg hs h
  have hle : (s.videoBase packet).2 ≤ bound := by
    unfold videoBase
    split
    · split
      · exact hbelow .audio
      · dsimp only
        exact htime
    · exact hbelow .video
  have hlt : s.videoTime packet < (s.videoBase packet).2 + kMaxVideoDeltaTime := Pace.advance_lt hnonneg
  omega

theorem step_below (hs : ∀ k : MediaStream, 0 ≤ k.corrected s) {bound : Int} (hbelow : s.Below bound)
    (h : packet.Media) (htime : packet.time ≤ bound) : (s.step packet).Below (bound + kMaxAudioDeltaTime) := by
  have hmax : 0 < kMaxAudioDeltaTime := by decide
  have hkeep : ∀ k : MediaStream, k.corrected s ≤ bound + kMaxAudioDeltaTime := by
    intro k
    have hk := hbelow k
    omega
  rcases h.type with htype | htype
  · have hlt : s.videoTime packet < bound + kMaxAudioDeltaTime := videoTime_lt hs hbelow h htime
    rw [step_video h htype]
    rintro (_ | _)
    · exact Int.le_of_lt hlt
    · rw [MediaStream.corrected]
      exact hkeep .audio
  · have hlt := audioNext_lt hs hbelow htime
    rw [step_audio h htype]
    rintro (_ | _)
    · rw [MediaStream.corrected]
      exact hkeep .video
    · exact Int.le_of_lt hlt

theorem uint32_inj {x y : Int} (hx : 0 ≤ x ∧ x < 2 ^ 32) (hy : 0 ≤ y ∧ y < 2 ^ 32) (h : uint32 x = uint32 y) :
    x = y := by
  rw [uint32_of_lt hx.1 hx.2, uint32_of_lt hy.1 hy.2] at h
  omega

/-- The two after a packet, by what is in front of it. -/
theorem readme_step {behindVideo : Bool} (htracks : Tracks d s) (hsame : SameTimes s r)
    (hcount : Counts behindVideo r) (hs : ∀ k : MediaStream, 0 ≤ k.corrected s) (h : packet.Media) :
    Counts (packet.type == kPacketTypeVideo) (r.readmeTimestamp packet).2 ∧
      (SameTimes (s.step packet) (r.readmeTimestamp packet).2 ↔
        (behindVideo = true → packet.type = kPacketTypeAudio → d.InStep packet.time)) ∧
      (SameTimes (s.step packet) (r.readmeTimestamp packet).2 →
        (r.readmeTimestamp packet).1 = (s.correctTimestamp packet).1) ∧
      ∀ bound, s.Below bound → packet.time ≤ bound → bound + kMaxAudioDeltaTime ≤ 2 ^ 32 →
        (r.readmeTimestamp packet).1 = (s.correctTimestamp packet).1 →
        SameTimes (s.step packet) (r.readmeTimestamp packet).2 := by
  rcases h.type with htype | htype
  · obtain ⟨hvalue, hnext⟩ := hsame.correctVideo packet
    rw [step, readmeTimestamp_video h htype, correctTimestamp_video h htype, htype]
    exact ⟨counts_correctVideo r h, iff_of_true hnext fun _ ha => absurd ha (by decide), fun _ => hvalue,
      fun _ _ _ _ _ => hnext⟩
  · have hvideo : (packet.type == kPacketTypeVideo) = false := by
      rw [htype]
      decide
    have hseen : behindVideo = true → s.videoOriginalTimestamp ≠ -1 := by
      rintro rfl
      rw [← hsame.videoOriginal]
      exact hcount.2
    obtain ⟨n, hn, hreadme⟩ := readme_audio hsame hcount packet
    rw [step, readmeTimestamp_audio h htype, correctTimestamp_audio h htype, hreadme, correctAudio_next, hvideo]
    generalize hnext : (if behindVideo then s.videoNext packet else s.audioNext packet) = next
    -- the two have the same times exactly when the audio has
    have hequal : next = s.audioNext packet → SameTimes { s with
        audioOriginalTimestamp := packet.time
        audioCorrectedTimestamp := s.audioNext packet } { r with
        audioNumbersBetweenVideo := n
        audioOriginalTimestamp := packet.time
        audioCorrectedTimestamp := next } := by
      rintro rfl
      exact hsame.audio n _ _
    refine ⟨?_, ⟨fun hnew hbehind _ => ?_, fun hlevel => hequal ?_⟩, fun hnew => ?_, ?_⟩
    · rw [Counts, if_neg Bool.false_ne_true]
      exact .inl hn
    · rw [if_pos hbehind] at hnext
      rw [← next_eq_iff htracks hs (hseen hbehind) h, hnext]
      exact hnew.audioCorrected.symm
    · rw [← hnext]
      split
      next hbehind => exact ((next_eq_iff htracks hs (hseen hbehind) h).mpr (hlevel hbehind htype)).symm
      next => rfl
    · exact congrArg uint32 hnew.audioCorrected
    · intro bound hbelow htime hroom hvalue
      have hlt : next < bound + kMaxAudioDeltaTime := by
        rw [← hnext]
        split
        · exact videoNext_lt hs hbelow
        · exact audioNext_lt hs hbelow htime
      have hown := audioNext_lt hs hbelow htime
      have hpos : 0 ≤ next := by
        rw [← hnext]
        split
        · exact Pace.advance_nonneg
        · exact audioNext_nonneg h
      exact hequal (uint32_inj ⟨hpos, by omega⟩ ⟨audioNext_nonneg h, by omega⟩ hvalue)

/-- The corrector the README describes, after a row of packets. -/
def readmeRun (r : TimeCorrector) (packets : List Packet) : TimeCorrector :=
  packets.foldl (fun r packet => (r.readmeTimestamp packet).2) r

/-- The two keep the same times as long as the streams are in step, and no longer. -/
theorem level_iff {behindVideo : Bool} (htracks : Tracks d s) (hsame : SameTimes s r)
    (hcount : Counts behindVideo r) (hs : ∀ k : MediaStream, 0 ≤ k.corrected s)
    (h : ∀ packet ∈ packets, packet.Media) :
    d.Level behindVideo packets ↔ ∀ n, SameTimes (s.run (packets.take n)) (r.readmeRun (packets.take n)) := by
  induction packets generalizing d s r behindVideo with
  | nil =>
      refine iff_of_true trivial fun n => ?_
      rw [List.take_nil]
      exact hsame
  | cons packet packets ih =>
      have hmedia := h packet List.mem_cons_self
      obtain ⟨hcount', hiff, -, -⟩ := readme_step htracks hsame hcount hs hmedia
      have htracks' := htracks.step hs hmedia
      have hrest : ∀ q ∈ packets, q.Media := fun q hq => h q (List.mem_cons_of_mem _ hq)
      have hs' : ∀ k : MediaStream, 0 ≤ k.corrected (s.step packet) := fun k => MediaStream.step_nonneg hmedia (hs k)
      constructor
      · rintro ⟨hmeets, hlevel⟩ n
        cases n with
        | zero => exact hsame
        | succ n => exact (ih htracks' (hiff.mpr hmeets) hcount' hs' hrest).mp hlevel n
      · intro hall
        have hnew := hall 1
        exact ⟨hiff.mp hnew, (ih htracks' hnew hcount' hs' hrest).mpr fun n => hall (n + 1)⟩

theorem returns_level {behindVideo : Bool} (htracks : Tracks d s) (hsame : SameTimes s r)
    (hcount : Counts behindVideo r) (hs : ∀ k : MediaStream, 0 ≤ k.corrected s)
    (h : ∀ packet ∈ packets, packet.Media) (hlevel : d.Level behindVideo packets) :
    returns correctTimestamp s packets = returns readmeTimestamp r packets := by
  induction packets generalizing d s r behindVideo with
  | nil => rfl
  | cons packet packets ih =>
      have hmedia := h packet List.mem_cons_self
      obtain ⟨hcount', hiff, hvalue, -⟩ := readme_step htracks hsame hcount hs hmedia
      have hnew := hiff.mpr hlevel.1
      have hrest := ih (htracks.step hs hmedia) hnew hcount' (fun k => MediaStream.step_nonneg hmedia (hs k))
        (fun q hq => h q (List.mem_cons_of_mem _ hq)) hlevel.2
      rw [returns, returns, hvalue hnew]
      exact congrArg (_ :: ·) hrest

/-- Where no corrected time gets past 32 bits, the first packet out of step is one with another value. -/
theorem level_of_returns {behindVideo : Bool} (htracks : Tracks d s) (hsame : SameTimes s r)
    (hcount : Counts behindVideo r) (hs : ∀ k : MediaStream, 0 ≤ k.corrected s)
    (h : ∀ packet ∈ packets, packet.Media) {bound : Int}
    (hbelow : s.Below bound) (htimes : ∀ packet ∈ packets, packet.time ≤ bound)
    (hroom : bound + kMaxAudioDeltaTime * packets.length ≤ 2 ^ 32)
    (hreturns : returns correctTimestamp s packets = returns readmeTimestamp r packets) :
    d.Level behindVideo packets := by
  induction packets generalizing d s r behindVideo bound with
  | nil => trivial
  | cons packet packets ih =>
      have hmedia := h packet List.mem_cons_self
      have htime := htimes packet List.mem_cons_self
      have hmax : kMaxAudioDeltaTime = 100 := rfl
      rw [List.length_cons, Nat.cast_succ, hmax] at hroom
      obtain ⟨hvalue, hreturns⟩ := List.cons.inj hreturns
      obtain ⟨hcount', hiff, -, hback⟩ := readme_step htracks hsame hcount hs hmedia
      have hnew := hback bound hbelow htime (by omega) hvalue.symm
      refine ⟨hiff.mp hnew, ?_⟩
      refine ih (htracks.step hs hmedia) hnew hcount' (fun k => MediaStream.step_nonneg hmedia (hs k))
        (fun q hq => h q (List.mem_cons_of_mem _ hq)) (step_below hs hbelow hmedia htime) (fun q hq => ?_) ?_ hreturns
      · have hq' := htimes q (List.mem_cons_of_mem _ hq)
        omega
      · rw [hmax]
        omega

theorem sameTimes_initial : SameTimes {} {} := ⟨rfl, rfl, rfl, rfl⟩

theorem counts_initial : Counts false {} := .inr ⟨rfl, rfl⟩

theorem nonneg_initial (k : MediaStream) : 0 ≤ k.corrected {} := Int.le_of_eq (MediaStream.corrected_initial k).symm

/-- The audio is corrected as the README has it, packet by packet, exactly as long as the streams are in step where
audio comes right behind a video packet. Then the values returned are those of the README, and only then where the
raw times leave room for the corrected times in 32 bits. -/
theorem audio_follows_readme_iff (packets : List Packet) (h : ∀ packet ∈ packets, packet.Media) :
    (({} : Drift).Level false packets ↔
      ∀ n, SameTimes (({} : TimeCorrector).run (packets.take n)) (({} : TimeCorrector).readmeRun (packets.take n))) ∧
    (({} : Drift).Level false packets →
      returns correctTimestamp {} packets = returns readmeTimestamp {} packets) ∧
    ((∀ packet ∈ packets, packet.time + kMaxAudioDeltaTime * packets.length ≤ 2 ^ 32) →
      (({} : Drift).Level false packets ↔
        returns correctTimestamp {} packets = returns readmeTimestamp {} packets)) := by
  have hforth := returns_level Tracks.initial sameTimes_initial counts_initial nonneg_initial h
  refine ⟨level_iff Tracks.initial sameTimes_initial counts_initial nonneg_initial h, hforth,
    fun hroom => ⟨hforth, fun hreturns => ?_⟩⟩
  cases packets with
  | nil => trivial
  | cons packet packets =>
      have hfirst := hroom packet List.mem_cons_self
      have htime := (h packet List.mem_cons_self).time_nonneg
      have hbelow : ({} : TimeCorrector).Below (2 ^ 32 - kMaxAudioDeltaTime * (packet :: packets).length) := by
        intro k
        rw [MediaStream.corrected_initial]
        omega
      refine level_of_returns Tracks.initial sameTimes_initial counts_initial nonneg_initial h hbelow (fun q hq => ?_) ?_ hreturns
      · have hq' := hroom q hq
        omega
      · omega

/-- Both streams jump by ten seconds, and the audio is as far ahead of the video as the two defaults differ. -/
theorem audio_follows_readme_jump :
    returns correctTimestamp {} [{ capacity := 0, type := 1, timestamp := 0 },
        { capacity := 0, type := 2, timestamp := 20 }, { capacity := 0, type := 1, timestamp := 10000 },
        { capacity := 0, type := 2, timestamp := 10000 }] =
      returns readmeTimestamp {} [{ capacity := 0, type := 1, timestamp := 0 },
        { capacity := 0, type := 2, timestamp := 20 }, { capacity := 0, type := 1, timestamp := 10000 },
        { capacity := 0, type := 2, timestamp := 10000 }] := by
  refine (audio_follows_readme_iff [{ capacity := 0, type := 1, timestamp := 0 },
    { capacity := 0, type := 2, timestamp := 20 }, { capacity := 0, type := 1, timestamp := 10000 },
    { capacity := 0, type := 2, timestamp := 10000 }] ?_).2.1 ?_
  · intro packet hpacket
    simp only [List.mem_cons, List.not_mem_nil, or_false] at hpacket
    rcases hpacket with rfl | rfl | rfl | rfl
    · exact ⟨rfl, .inl rfl, by decide⟩
    · exact ⟨rfl, .inr rfl, by decide⟩
    · exact ⟨rfl, .inl rfl, by decide⟩
    · exact ⟨rfl, .inr rfl, by decide⟩
  · exact ⟨fun h => absurd h Bool.false_ne_true, fun _ _ => by decide, fun _ h => absurd h (by decide),
      fun _ _ => by decide, trivial⟩

/-- Both streams jump by ten seconds. The video goes on by 40 and the audio by 20, where it should go on with
the video. -/
theorem commonJump_separates : ¬ ∀ packets : List Packet, (∀ packet ∈ packets, packet.Media) →
    returns correctTimestamp {} packets = returns readmeTimestamp {} packets := by
  intro h
  refine absurd (h [{ capacity := 0, type := 1, timestamp := 0 }, { capacity := 0, type := 2, timestamp := 0 },
    { capacity := 0, type := 1, timestamp := 10000 }, { capacity := 0, type := 2, timestamp := 10000 }] ?_) (by decide)
  intro packet hpacket
  simp only [List.mem_cons, List.not_mem_nil, or_false] at hpacket
  rcases hpacket with rfl | rfl | rfl | rfl
  · exact ⟨rfl, .inl rfl, by decide⟩
  · exact ⟨rfl, .inr rfl, by decide⟩
  · exact ⟨rfl, .inl rfl, by decide⟩
  · exact ⟨rfl, .inr rfl, by decide⟩

end TimeCorrector

/-! ## Streams that do not jump -/

namespace Drift
variable {d : Drift} {packet : Packet} {packets : List Packet}

/-- No packet is far from the last one of its stream, nor from the last one of the other. -/
def Calm (d : Drift) : List Packet → Prop
  | [] => True
  | packet :: packets =>
      (∀ k : MediaStream, (d.track k).time ≠ -1 → audioPace.Fine (packet.time - (d.track k).time)) ∧
        (d.step packet).Calm packets

/-- Neither stream has been moved. -/
def Unmoved (d : Drift) : Prop := d.video.moved = 0 ∧ d.audio.moved = 0

/-- A packet at `t` that is near to the last ones is not moved. -/
theorem unmoved_near (hd : d.Unmoved) {t : Int} (ht : 0 ≤ t)
    (hnear : ∀ k : MediaStream, (d.track k).time ≠ -1 → audioPace.Fine (t - (d.track k).time)) :
    ((d.videoBase t).next videoPace t).moved = 0 ∧ ((d.audioBase t).next audioPace t).moved = 0 := by
  obtain ⟨hvideo, haudio⟩ := hd
  have hself : audioPace.Fine (t - t) := by
    rw [Int.sub_self]
    decide
  constructor
  · -- the bounds of the two streams are the same
    have hbase : d.videoBase t = if d.video.time = -1 then ⟨t, 0⟩ else d.video := by
      unfold videoBase
      refine if_congr Iff.rfl (if_neg ?_) rfl
      rintro ⟨hseen, hjumps⟩
      obtain ⟨hlow, hhigh⟩ := hnear .audio hseen
      have hsmall : -kMaxVideoDeltaTime < d.audio.time - t ∧ d.audio.time - t < kMaxVideoDeltaTime := by
        change -kMaxVideoDeltaTime < t - d.audio.time at hlow
        change t - d.audio.time < kMaxVideoDeltaTime at hhigh
        exact ⟨by omega, by omega⟩
      rw [TimeCorrector.int32_small hsmall] at hjumps
      exact hjumps hsmall
    rw [hbase, Track.next]
    split
    next => exact Pace.move_still ht hself
    next hseen =>
      rw [hvideo]
      exact Pace.move_still ht (hnear .video hseen)
  · rw [audioBase, Track.next]
    split
    next => exact Pace.move_still ht hself
    next hseen =>
      rw [haudio]
      exact Pace.move_still ht (hnear .audio hseen)

theorem step_unmoved (hd : d.Unmoved) (h : packet.Media)
    (hnear : ∀ k : MediaStream, (d.track k).time ≠ -1 → audioPace.Fine (packet.time - (d.track k).time)) :
    (d.step packet).Unmoved := by
  have hnext := unmoved_near hd h.time_nonneg hnear
  rcases h.type with htype | htype
  · rw [step_video htype]
    exact ⟨hnext.1, hd.2⟩
  · rw [step_audio htype]
    exact ⟨hd.1, hnext.2⟩

/-- Streams that do not jump stay in step. -/
theorem level_of_calm {behindVideo : Bool} (hd : d.Unmoved) (hbehind : behindVideo = true → d.video.time ≠ -1)
    (h : ∀ packet ∈ packets, packet.Media) (hcalm : d.Calm packets) : d.Level behindVideo packets := by
  induction packets generalizing d behindVideo with
  | nil => trivial
  | cons packet packets ih =>
      have hmedia := h packet List.mem_cons_self
      obtain ⟨hnear, hcalm⟩ := hcalm
      refine ⟨fun hvideo htype => ?_, ih (step_unmoved hd hmedia hnear) (fun hvideo => ?_)
        (fun q hq => h q (List.mem_cons_of_mem _ hq)) hcalm⟩
      · have hnearVideo : audioPace.Fine (packet.time - d.video.time) := hnear .video (hbehind hvideo)
        unfold InStep
        split
        next => exact .inl hd.1
        next haudio =>
          have hnearAudio : audioPace.Fine (packet.time - d.audio.time) := hnear .audio haudio
          rw [if_pos hnearAudio]
          exact .inl (hd.2.trans hd.1.symm)
      · rw [step_video (beq_iff_eq.mp hvideo), Track.next]
        dsimp only
        exact hmedia.time_ne

end Drift

namespace TimeCorrector
variable {packets : List Packet}

/-- A run without jumps is corrected as the README has it. -/
theorem calm_follows_readme (h : ∀ packet ∈ packets, packet.Media) (hcalm : ({} : Drift).Calm packets) :
    returns correctTimestamp {} packets = returns readmeTimestamp {} packets :=
  returns_level Tracks.initial sameTimes_initial counts_initial nonneg_initial h
    (Drift.level_of_calm ⟨rfl, rfl⟩ (fun hvideo => absurd hvideo Bool.false_ne_true) h hcalm)

end TimeCorrector
end TmmsServer
