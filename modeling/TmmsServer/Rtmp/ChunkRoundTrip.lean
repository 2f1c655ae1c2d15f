import TmmsServer.Rtmp.ChunkDecoding

/-!
# Sender and receiver in step

For each chunk stream the sender's two maps and the receiver's four hold the same
history between messages. A message whose timestamp comes through leaves them so.
-/
namespace TmmsServer
open Lib.Words Lib.Feed

/-- The histories of a chunk stream agree; `ext` tells whether its last message was written with an
extended timestamp. -/
structure Linked (o : OutStream) (ext : Bool) (t : InStream) : Prop where
  header : t.header = o.header
  packet : t.packet = none
  ext_eq : t.ext = ext
  delta : ext = false → t.delta = o.delta
  long : timestampField o.delta = 0xFFFFFF → ext = true

/-- The receiver reads back the timestamp given to the sender. -/
def Survives (o : OutStream) (ext : Bool) (header : RtmpMsgHeader) (timestamp : UInt32)
    (fmt0 : Bool) : Prop :=
  let c := o.choose header timestamp fmt0
  let k := UInt32.ofNat (continuations header.msgLen.toNat)
  if c.long then
    if c.fmt = .fmt0 then 0xFFFFFF + k * byteSwap timestamp = timestamp
    else (k + 1) * byteSwap c.timestamp = c.timestamp
  else ¬ (c.fmt = .fmt3 ∧ ext = true)

/-- A packet whose handling leaves a chunk size of 4096 as it is. -/
def KeepsChunkSize (type : Nat) (body : List UInt8) : Prop :=
  type = kRtmpMsgTypeChunkSize.toNat → 4 ≤ body.length →
    (UInt32.ofNat (beValue (body.take 4))).toInt32 = 4096

/-- A message the chunk format can express. -/
structure Sendable (packet : Packet) (header : RtmpMsgHeader) : Prop where
  ext : packet.ext = some header
  csId_lo : 2 ≤ header.csId
  csId_hi : header.csId ≤ 65599
  msgLen : header.msgLen.toNat = packet.data.length
  msgLen_pos : 0 < header.msgLen.toNat
  msgLen_lt : header.msgLen.toNat < 2 ^ 24
  keeps : KeepsChunkSize header.msgType.toNat packet.data

theorem messageComplete_keeps {r : RtmpIn} {packet : Packet} (hk : r.inChunkSize = 4096)
    (h : KeepsChunkSize packet.type packet.data) : r.messageComplete packet = r := by
  unfold RtmpIn.messageComplete RtmpIn.handleChunkSize Packet.packetSize
  split
  next htype =>
    split
    next hfour => rw [h htype hfour, ← hk]
    next => rfl
  next => rfl

/-- A short message opens with its own timestamp. -/
theorem opening_short {o : OutStream} {header : RtmpMsgHeader} {timestamp : UInt32} {fmt0 : Bool}
    {c : FmtChoice}
    (hc : o.choose header timestamp fmt0 = c) (hlong : c.long = false) {delta : UInt32}
    (hdelta : c.fmt = .fmt3 → delta = o.delta) :
    opening c (o.header.getD {}).timestamp delta =
      ⟨timestamp, (o.after header timestamp fmt0).delta⟩ := by
  have hno : ¬ (c.long = true ∧ c.fmt ≠ .fmt0) :=
    fun h => by rw [hlong] at h; exact Bool.false_ne_true h.1
  have hfield : timestampField c.timestamp = c.timestamp := by
    have hne := ne_of_beq_false hlong
    unfold timestampField at hne ⊢
    split
    next h => rw [if_pos h] at hne; exact absurd rfl hne
    next => rfl
  unfold opening OutStream.after fieldOpening
  rw [if_neg hno, hfield, hc]
  rcases o.choose_cases header timestamp fmt0 with hfmt | ⟨prev, fmt, hprev, hfmt, -, -, -, hd, hfull⟩
  · rw [hc] at hfmt
    rw [hfmt]
    rfl
  · rw [hc] at hfull
    have hsum : timestamp - prev.timestamp + prev.timestamp = timestamp := by grind
    rw [hfull] at hdelta ⊢
    rw [hprev, Option.getD_some]
    cases fmt with
    | fmt0 => exact absurd rfl hfmt
    | fmt1 => rw [hsum]; rfl
    | fmt2 => rw [hsum]; rfl
    | fmt3 => rw [hdelta rfl, ← hd rfl, hsum]; rfl

theorem after_delta_zero {o : OutStream} {header : RtmpMsgHeader} {timestamp : UInt32} {fmt0 : Bool}
    (h0 : timestamp = 0) : (o.after header timestamp fmt0).delta = 0 := by
  subst h0
  unfold OutStream.after
  rcases o.choose_cases header 0 fmt0 with hfmt | ⟨prev, fmt, -, hfmt, hle, -, -, -, hfull⟩
  · rw [hfmt]
    rfl
  · have hprev : prev.timestamp = 0 := by
      rw [UInt32.le_iff_toNat_le] at hle
      exact UInt32.toNat_inj.mp (Nat.le_zero.mp hle)
    rw [hfull, hprev]
    exact if_neg hfmt

section Message
variable {r : RtmpIn} {o : OutStream} {ext : Bool} {packet : Packet} {header : RtmpMsgHeader}
  {timestamp : UInt32} {fmt0 : Bool}

/-- The timestamp the receiver ends up with. -/
def arrivedTimestamp (o : OutStream) (header : RtmpMsgHeader) (timestamp : UInt32) (fmt0 : Bool)
    (delta : UInt32) : UInt32 :=
  let c := o.choose header timestamp fmt0
  reread c (continuations header.msgLen.toNat) (opening c (o.header.getD {}).timestamp delta).timestamp

/-- The delta the receiver ends up with. -/
def arrivedDelta (o : OutStream) (header : RtmpMsgHeader) (timestamp : UInt32) (fmt0 : Bool)
    (delta : UInt32) : UInt32 :=
  let c := o.choose header timestamp fmt0
  let opened := (opening c (o.header.getD {}).timestamp delta).delta
  if header.msgLen.toNat ≤ 4096 then opened else nextDelta c opened

/-- The first chunk of a message as the parser sees it. -/
theorem first_chunk {c : FmtChoice} (hc : o.choose header timestamp fmt0 = c)
    (hs : Sendable packet header)
    (hk : r.inChunkSize = 4096) (hlink : Linked o ext (r.stream header.csId))
    (hext : c.fmt = .fmt3 → ext = c.long) (piece : List UInt8) (hpos : 0 < piece.length)
    (hpiece : piece.length = min header.msgLen.toNat 4096) :
    Chunk r c.fmt header.csId
      (headerFields c.fmt (timestampField c.timestamp) header ++ extendedTimestamp c.timestamp) piece
      { header with timestamp :=
          (opening c (o.header.getD {}).timestamp (r.stream header.csId).delta).timestamp }
      (opening c (o.header.getD {}).timestamp (r.stream header.csId).delta).delta c.long [] := by
  have hfields := headerFields_length c.fmt (timestampField c.timestamp) header
  have hfour : (extendedTimestamp c.timestamp).length ≤ 4 := by
    unfold extendedTimestamp
    split
    · rw [BytesWriter.copyUint32, leBytes_length]
    · exact Nat.zero_le _
  have heleven : c.fmt.fieldBytes ≤ 11 := by cases c.fmt <;> decide
  have hne : header.msgLen ≠ 0 := fun h => by
    have := hs.msgLen_pos
    rw [h] at this
    exact Nat.lt_irrefl _ this
  refine ⟨hs.csId_lo, hs.csId_hi, hk, ?_, ?_, ?_, hs.msgLen_lt, hpos, hpiece⟩
  · rw [List.length_append, hfields]
    exact Nat.le_add_right _ _
  · rw [List.length_append, hfields]
    omega
  · refine ⟨o.header.getD {}, { capacity := header.msgLen.toNat
                                ext := some { csId := header.csId, msgLen := header.msgLen } },
      { csId := header.csId, msgLen := header.msgLen }, ?_, rfl, rfl, ?_⟩
    · rw [List.append_assoc]
      exact openPacket_first r.inChunkSize hc hlink.header hlink.packet hne hs.msgLen_lt _
    · have hN : (headerFields c.fmt (timestampField c.timestamp) header ++ extendedTimestamp c.timestamp ++
          piece).length < 2 ^ 31 := by
        rw [List.length_append, List.length_append, hfields]
        omega
      have hfirst := streamHeader_first { csId := header.csId, msgLen := header.msgLen } hc rfl rfl
        hs.msgLen_lt (r.stream header.csId).delta (fun h => (hlink.ext_eq.trans (hext h))) piece
        (List.append_assoc _ _ _) hN
      rw [@List.length_append _ (headerFields _ _ _) (extendedTimestamp _), hfields]
      exact hfirst

/-- The chunks of a message complete it, with the timestamp the receiver makes of it. -/
theorem takes_message (hs : Sendable packet header) (hk : r.inChunkSize = 4096)
    (hlink : Linked o ext (r.stream header.csId))
    (hext : (o.choose header timestamp fmt0).fmt = .fmt3 → ext = (o.choose header timestamp fmt0).long) :
    let delta := (r.stream header.csId).delta
    let h' := { header with timestamp := arrivedTimestamp o header timestamp fmt0 delta }
    Takes parseStep (2 ^ 31 - 1) r (o.encode header packet.data timestamp fmt0)
      (r.setStream header.csId
        ⟨some h', none, arrivedDelta o header timestamp fmt0 delta, (o.choose header timestamp fmt0).long⟩)
      [.received h' packet.data] := by
  have hkeep : ∀ ts (t : InStream), (r.setStream header.csId t).messageComplete
      (.received { header with timestamp := ts } packet.data) = r.setStream header.csId t :=
    fun _ _ => messageComplete_keeps hk hs.keeps
  have hlen := hs.msgLen
  have hpos := hs.msgLen_pos
  have hl := hs.msgLen_lt
  unfold OutStream.encode arrivedTimestamp arrivedDelta
  generalize hc : o.choose header timestamp fmt0 = c at hext
  dsimp only
  by_cases hone : packet.data.length ≤ 4096
  · have hchunk := first_chunk hc hs hk hlink hext packet.data (by omega) (by omega)
    have hdone := hchunk.takes_done (by rw [List.length_nil]; dsimp only; omega)
    have hnone : continuations header.msgLen.toNat = 0 := by unfold continuations; omega
    rw [List.nil_append, hkeep] at hdone
    rw [hnone, reread_zero, if_pos (by omega), chunkedBody_short hone, firstHeader,
      List.append_assoc]
    exact hdone
  · have htake : (packet.data.take 4096).length = 4096 := by rw [List.length_take]; omega
    have hdrop : (packet.data.drop 4096).length = packet.data.length - 4096 := List.length_drop
    have hchunk := first_chunk hc hs hk hlink hext (packet.data.take 4096) (by omega) (by omega)
    have hmore := hchunk.takes_more (by rw [List.length_nil]; dsimp only; omega)
    rw [List.nil_append] at hmore
    have hzero : c.long = false →
        (opening c (o.header.getD {}).timestamp (r.stream header.csId).delta).timestamp = 0 →
        (opening c (o.header.getD {}).timestamp (r.stream header.csId).delta).delta = 0 := by
      intro hlong h0
      rw [opening_short hc hlong fun h3 => hlink.delta (by rw [hext h3, hlong])] at h0 ⊢
      exact after_delta_zero h0
    generalize opening c (o.header.getD {}).timestamp (r.stream header.csId).delta = op at *
    have hrest := takes_continuation (c := c) (r := packet.data.drop 4096)
      (s := r.setStream header.csId ⟨some { header with timestamp := op.timestamp },
        some (.partly { header with timestamp := op.timestamp } (packet.data.take 4096)), op.delta, c.long⟩)
      (h := { header with timestamp := op.timestamp }) hs.csId_lo hs.csId_hi hk
      (RtmpIn.stream_setStream r header.csId _) hzero hl (List.length_pos_iff.mp (by omega))
      (by dsimp only; omega)
    have hcount : continuations (packet.data.drop 4096).length + 1 =
        continuations header.msgLen.toNat := by
      unfold continuations
      omega
    dsimp only at hrest
    rw [hcount, List.take_append_drop, RtmpIn.setStream_setStream, hkeep] at hrest
    rw [if_neg (by omega), chunkedBody_long (by omega), firstHeader]
    have hall := hmore.append hrest
    simpa only [List.append_assoc, List.nil_append] using hall

/-- With an extended timestamp the receiver ends up right exactly when the bytes it misreads add up. -/
theorem arrivedTimestamp_long {c : FmtChoice} (hc : o.choose header timestamp fmt0 = c)
    (hlong : c.long = true) (delta : UInt32) :
    arrivedTimestamp o header timestamp fmt0 delta = timestamp ↔
      if c.fmt = .fmt0 then
        0xFFFFFF + UInt32.ofNat (continuations header.msgLen.toNat) * byteSwap timestamp = timestamp
      else (UInt32.ofNat (continuations header.msgLen.toNat) + 1) * byteSwap c.timestamp = c.timestamp := by
  unfold arrivedTimestamp reread opening
  rw [hc]
  dsimp only
  rw [if_pos hlong]
  generalize UInt32.ofNat (continuations header.msgLen.toNat) = k
  rcases o.choose_cases header timestamp fmt0 with hfmt | ⟨prev, fmt, hprev, hfmt, -, -, -, -, hfull⟩
  · rw [hc] at hfmt
    have hfield : timestampField timestamp = 0xFFFFFF := by
      have := eq_of_beq hlong
      rwa [hfmt] at this
    have hno : ¬ (c.long = true ∧ c.fmt ≠ .fmt0) := fun h => h.2 (by rw [hfmt])
    rw [if_neg hno, hfmt, if_pos rfl]
    unfold fieldOpening
    dsimp only
    rw [hfield]
  · rw [hc] at hfull
    have hyes : c.long = true ∧ c.fmt ≠ .fmt0 := ⟨hlong, by rw [hfull]; exact hfmt⟩
    rw [if_pos hyes, if_neg hyes.2, hprev, Option.getD_some, hfull]
    dsimp only
    generalize byteSwap (timestamp - prev.timestamp) = b
    constructor <;> intro h <;> grind

theorem Linked.ext_of_long {t : InStream} (hlink : Linked o ext t)
    (hlong : (o.choose header timestamp fmt0).long = true)
    (h3 : (o.choose header timestamp fmt0).fmt = .fmt3) : ext = true := by
  refine hlink.long ?_
  rcases o.choose_cases header timestamp fmt0 with hfmt | ⟨prev, fmt, hprev, hfmt, -, -, -, hd, hfull⟩
  · rw [hfmt] at h3
    cases h3
  · rw [hfull] at h3 hlong
    rw [← hd h3]
    exact eq_of_beq hlong

/-- What a surviving message needs of the histories, and what comes of it. -/
theorem Survives.arrived (hlink : Linked o ext (r.stream header.csId))
    (h : Survives o ext header timestamp fmt0) :
    ((o.choose header timestamp fmt0).fmt = .fmt3 → ext = (o.choose header timestamp fmt0).long) ∧
      arrivedTimestamp o header timestamp fmt0 (r.stream header.csId).delta = timestamp := by
  unfold Survives at h
  generalize hc : o.choose header timestamp fmt0 = c at h
  dsimp only at h ⊢
  cases hlong : c.long with
  | true =>
      rw [if_pos hlong] at h
      refine ⟨fun h3 => ?_, (arrivedTimestamp_long hc hlong _).mpr h⟩
      subst hc
      exact hlink.ext_of_long hlong h3
  | false =>
      rw [if_neg (by rw [hlong]; exact Bool.false_ne_true)] at h
      have hext : c.fmt = .fmt3 → ext = false :=
        fun h3 => Bool.eq_false_iff.mpr fun he => h ⟨h3, he⟩
      refine ⟨hext, ?_⟩
      unfold arrivedTimestamp reread
      rw [hc]
      dsimp only
      rw [if_neg (by rw [hlong]; exact Bool.false_ne_true),
        opening_short hc hlong fun h3 => hlink.delta (hext h3)]

/-- A surviving message is completed with the timestamp given to the sender, and the histories agree again. -/
theorem Survives.step (h : Survives o ext header timestamp fmt0) (hs : Sendable packet header)
    (hk : r.inChunkSize = 4096) (hlink : Linked o ext (r.stream header.csId)) :
    ∃ t, Takes parseStep (2 ^ 31 - 1) r (o.encode header packet.data timestamp fmt0)
        (r.setStream header.csId t) [.received { header with timestamp } packet.data] ∧
      Linked (o.after header timestamp fmt0) (o.choose header timestamp fmt0).long t := by
  obtain ⟨hext, harrived⟩ := h.arrived hlink
  have htakes := takes_message hs hk hlink hext
  dsimp only at htakes
  rw [harrived] at htakes
  refine ⟨_, htakes, rfl, rfl, rfl, fun hlong => ?_, fun hlong => ?_⟩
  · have hdelta : ((o.choose header timestamp fmt0).fmt = .fmt3 → (r.stream header.csId).delta = o.delta) :=
      fun h3 => hlink.delta ((hext h3).trans hlong)
    dsimp only
    unfold arrivedDelta nextDelta
    dsimp only
    rw [if_neg (c := (o.choose header timestamp fmt0).long = true) (by rw [hlong]; exact Bool.false_ne_true),
      opening_short rfl hlong hdelta]
    exact ite_self _
  · unfold OutStream.after at hlong
    dsimp only at hlong
    by_cases h0 : (o.choose header timestamp fmt0).fmt = .fmt0
    · rw [if_pos h0] at hlong
      exact absurd hlong (by decide)
    · rw [if_neg h0] at hlong
      exact beq_iff_eq.mpr hlong

end Message

/-! ## Runs of the sender -/

/-- What the owner of the context does: build the chunks of a message, with either overload, or
start over with an empty `out_buffer_` after `sending_bufs_` went out. -/
inductive SendOp where
  | build (shared : Bool) (packet : Packet) (timestamp : UInt32) (fmt0 : Bool)
  | reset

/-- A sender and the bytes it has sent. -/
structure Sender where
  out : RtmpOut := {}
  sent : List UInt8 := []

namespace Sender

def step (s : Sender) : SendOp → Checked Sender
  | .build shared packet timestamp fmt0 => do
      let built ← bif shared then s.out.buildChunkShared packet timestamp fmt0
        else s.out.buildChunk packet timestamp fmt0
      return { s with out := built.1 }
  | .reset => do
      let bytes ← s.out.sendingBytes
      return ⟨s.out.reset, s.sent ++ bytes⟩

def run : Sender → List SendOp → Checked Sender
  | s, [] => .ok s
  | s, op :: ops => s.step op >>= fun s => run s ops

/-- All bytes up to now: those sent and those of `sending_bufs_`. -/
def wire (s : Sender) : Checked (List UInt8) := do
  let bytes ← s.out.sendingBytes
  return s.sent ++ bytes

end Sender

/-- The packet a message is completed as. -/
def SendOp.delivered : SendOp → Option Packet
  | .build _ packet timestamp _ => packet.ext.map fun header => .received { header with timestamp } packet.data
  | .reset => none

/-- The headers of every message fit `out_buffer_` behind those already there. -/
def HeadersFit : Sender → List SendOp → Prop
  | _, [] => True
  | s, op :: ops =>
      (match op with
        | .build _ packet timestamp fmt0 => ∀ header, packet.ext = some header →
            s.out.outCurrent + (s.out.stream header.csId).headerNeed header timestamp fmt0 ≤ 4096
        | .reset => True) ∧
      ∀ s', s.step op = .ok s' → HeadersFit s' ops

/-- A receiver that has read everything sent: it completed `out`, and the histories agree. -/
structure InStep (s : Sender) (ext : UInt32 → Bool) (r : RtmpIn) (out : List Packet) : Prop where
  wire : ∃ w, s.out.Lays w ∧ Takes parseStep (2 ^ 31 - 1) { inChunkSize := 4096 } (s.sent ++ w) r out
  links : ∀ csid, Linked (s.out.stream csid) (ext csid) (r.stream csid)
  chunkSize : r.inChunkSize = 4096

namespace InStep
variable {s : Sender} {ext : UInt32 → Bool} {r : RtmpIn} {out : List Packet}

theorem init : InStep {} (fun _ => false) { inChunkSize := 4096 } [] where
  wire := ⟨[], ⟨[], .nil, rfl⟩, .nil _⟩
  links _ := by
    have hzero : timestampField 0 ≠ 0xFFFFFF := by decide
    exact ⟨rfl, rfl, rfl, fun _ => rfl, fun h => absurd h hzero⟩
  chunkSize := rfl

theorem reset (h : InStep s ext r out) : ∃ s', s.step .reset = .ok s' ∧ InStep s' ext r out := by
  obtain ⟨w, hw, ht⟩ := h.wire
  refine ⟨⟨s.out.reset, s.sent ++ w⟩, ?_, ⟨[], ⟨[], .nil, rfl⟩, by rwa [List.append_nil]⟩, h.links, h.chunkSize⟩
  rw [Sender.step, RtmpOut.sendingBytes_of_lays hw]
  rfl

theorem step_build {shared : Bool} {packet : Packet} {timestamp : UInt32} {fmt0 : Bool}
    {out' : RtmpOut} (h : s.out.buildChunk packet timestamp fmt0 = .ok (out', true)) :
    s.step (.build shared packet timestamp fmt0) = .ok { s with out := out' } := by
  unfold Sender.step
  cases shared with
  | false =>
      dsimp only [cond_false]
      rw [h, ok_bind]
      rfl
  | true =>
      dsimp only [cond_true]
      rw [← RtmpOut.buildChunk_eq_shared, h, ok_bind]
      rfl

theorem build (h : InStep s ext r out) (shared : Bool) {packet : Packet} {header : RtmpMsgHeader}
    {timestamp : UInt32} {fmt0 : Bool} (hs : Sendable packet header)
    (hroom : s.out.outCurrent + (s.out.stream header.csId).headerNeed header timestamp fmt0 ≤ 4096)
    (hsurv : Survives (s.out.stream header.csId) (ext header.csId) header timestamp fmt0) :
    ∃ s' r', s.step (.build shared packet timestamp fmt0) = .ok s' ∧
      InStep s' (Function.update ext header.csId
        ((s.out.stream header.csId).choose header timestamp fmt0).long) r'
        (out ++ [.received { header with timestamp } packet.data]) := by
  have hl := hs.msgLen_lt
  obtain ⟨w, hw, ht⟩ := h.wire
  obtain ⟨out', hbuild, hgrow⟩ := RtmpOut.buildChunk_grows timestamp fmt0 hs.ext hs.msgLen (by omega) hroom
  obtain ⟨t, htakes, hlink⟩ := hsurv.step hs h.chunkSize (h.links header.csId)
  refine ⟨{ s with out := out' }, r.setStream header.csId t, step_build hbuild, ?_, ?_, h.chunkSize⟩
  · refine ⟨_, hgrow.lays w (RtmpOut.keep_lays packet hw), ?_⟩
    rw [← List.append_assoc]
    exact ht.append htakes
  · intro csid
    have hstream : out'.stream csid = ((s.out.keep packet).setStream header.csId
        ((s.out.stream header.csId).after header timestamp fmt0)).stream csid := by
      unfold RtmpOut.stream
      rw [hgrow.deltas, hgrow.headers]
      rfl
    rw [hstream]
    by_cases hcs : csid = header.csId
    · subst hcs
      rw [RtmpOut.stream_setStream, RtmpIn.stream_setStream, Function.update_self]
      exact hlink
    · rw [RtmpOut.stream_setStream_ne _ _ hcs, RtmpIn.stream_setStream_ne _ _ hcs,
        Function.update_of_ne hcs]
      exact h.links csid

/-- However the bytes sent are delivered, the receiver completes the messages sent and nothing is left. -/
theorem delivers (h : InStep s ext r out) : ∃ wire, s.wire = .ok wire ∧
    ∀ pieces, pieces.flatten = wire → Fits parseMessage (2 ^ 31 - 1) { inChunkSize := 4096 } [] pieces →
      feed parseMessage { inChunkSize := 4096 } [] pieces = ⟨out, .ok (r, [])⟩ := by
  obtain ⟨w, hw, ht⟩ := h.wire
  refine ⟨s.sent ++ w, by rw [Sender.wire, RtmpOut.sendingBytes_of_lays hw]; rfl, fun pieces hflat hfit => ?_⟩
  obtain ⟨hfeed, hfit'⟩ := feed_parseMessage hfit
  rw [hfeed]
  refine feed_takes parseChunk_resumable (Nat.zero_le _)
    (parseChunk_resumable.empty_wait _) hfit' ?_
  rw [List.nil_append, hflat]
  exact ht

end InStep

/-- A message with a timestamp below `0xFFFFFF` that is not Set Chunk Size. -/
structure Plain (packet : Packet) (timestamp : UInt32) : Prop where
  message : ∃ header, packet.ext = some header ∧ 2 ≤ header.csId ∧ header.csId ≤ 65599 ∧
    header.msgLen.toNat = packet.data.length ∧ 0 < header.msgLen.toNat ∧ header.msgLen.toNat < 2 ^ 24 ∧
    header.msgType ≠ kRtmpMsgTypeChunkSize
  timestamp_lt : timestamp < 0xFFFFFF

theorem Plain.sendable {packet : Packet} {timestamp : UInt32} (h : Plain packet timestamp) :
    ∃ header, Sendable packet header := by
  obtain ⟨header, hx, hlo, hhi, hlen, hpos, hlt, htype⟩ := h.message
  refine ⟨header, hx, hlo, hhi, hlen, hpos, hlt, fun heq => ?_⟩
  exact absurd (UInt8.toNat_inj.mp heq) htype

theorem choose_short (o : OutStream) (header : RtmpMsgHeader) {timestamp : UInt32} (fmt0 : Bool)
    (h : timestamp < 0xFFFFFF) : (o.choose header timestamp fmt0).long = false := by
  have hle : (o.choose header timestamp fmt0).timestamp ≤ timestamp := by
    rcases o.choose_cases header timestamp fmt0 with hfmt | ⟨prev, fmt, -, -, hle, -, -, -, hfull⟩
    · rw [hfmt]
      exact UInt32.le_refl timestamp
    · rw [hfull, UInt32.le_iff_toNat_le, UInt32.toNat_sub_of_le _ _ hle]
      exact Nat.sub_le _ _
  unfold FmtChoice.long timestampField
  have hlt : (o.choose header timestamp fmt0).timestamp < 0xFFFFFF := UInt32.lt_of_le_of_lt hle h
  rw [if_neg (UInt32.not_le.mpr hlt)]
  exact beq_false_of_ne (UInt32.ne_of_lt hlt)

theorem run_inStep {s : Sender} {r : RtmpIn} {out : List Packet} (ops : List SendOp)
    (hplain : ∀ shared packet timestamp fmt0, SendOp.build shared packet timestamp fmt0 ∈ ops →
      Plain packet timestamp) (hfit : HeadersFit s ops) (h : InStep s (fun _ => false) r out) :
    ∃ s' r', s.run ops = .ok s' ∧ InStep s' (fun _ => false) r' (out ++ ops.filterMap SendOp.delivered) := by
  induction ops generalizing s r out with
  | nil => exact ⟨s, r, rfl, by simpa using h⟩
  | cons op ops ih =>
      have hrest : ∀ shared packet timestamp fmt0, SendOp.build shared packet timestamp fmt0 ∈ ops →
          Plain packet timestamp := fun _ _ _ _ hmem => hplain _ _ _ _ (List.mem_cons_of_mem _ hmem)
      cases op with
      | reset =>
          obtain ⟨s₁, hs₁, h₁⟩ := h.reset
          obtain ⟨s₂, r₂, hs₂, h₂⟩ := ih hrest (hfit.2 s₁ hs₁) h₁
          exact ⟨s₂, r₂, by rw [Sender.run, hs₁, ok_bind, hs₂], h₂⟩
      | build shared packet timestamp fmt0 =>
          have hmsg := hplain shared packet timestamp fmt0 List.mem_cons_self
          obtain ⟨header, hs⟩ := hmsg.sendable
          have hshort := choose_short (s.out.stream header.csId) header fmt0 hmsg.timestamp_lt
          have hsurv : Survives (s.out.stream header.csId) false header timestamp fmt0 := by
            unfold Survives
            rw [if_neg (by rw [hshort]; exact Bool.false_ne_true)]
            exact fun hno => Bool.false_ne_true hno.2
          obtain ⟨s₁, r₁, hs₁, h₁⟩ := h.build shared hs (hfit.1 header hs.ext) hsurv
          rw [hshort, Function.update_eq_self] at h₁
          obtain ⟨s₂, r₂, hs₂, h₂⟩ := ih hrest (hfit.2 s₁ hs₁) h₁
          refine ⟨s₂, r₂, by rw [Sender.run, hs₁, ok_bind, hs₂], ?_⟩
          have hdel : SendOp.delivered (.build shared packet timestamp fmt0) =
              some (.received { header with timestamp } packet.data) := by
            change packet.ext.map _ = _
            rw [hs.ext]
            rfl
          rw [List.filterMap_cons_some hdel]
          rw [List.append_assoc] at h₂
          exact h₂

/-- Chunk round trip: what the sender builds, the receiver completes, message by message. -/
theorem parseMessage_buildChunk (ops : List SendOp)
    (hplain : ∀ shared packet timestamp fmt0, SendOp.build shared packet timestamp fmt0 ∈ ops →
      Plain packet timestamp) (hfit : HeadersFit {} ops) :
    ∃ s wire r, Sender.run {} ops = .ok s ∧ s.wire = .ok wire ∧
      ∀ pieces, pieces.flatten = wire → Fits parseMessage (2 ^ 31 - 1) { inChunkSize := 4096 } [] pieces →
        feed parseMessage { inChunkSize := 4096 } [] pieces =
          ⟨ops.filterMap SendOp.delivered, .ok (r, [])⟩ := by
  obtain ⟨s, r, hrun, h⟩ := run_inStep ops hplain hfit InStep.init
  obtain ⟨wire, hwire, hfeed⟩ := h.delivers
  exact ⟨s, wire, r, hrun, hwire, hfeed⟩

/-! ## A sender that starts over after every message -/

section Rows
variable {packet : Packet} {header : RtmpMsgHeader} {timestamp : UInt32} {fmt0 : Bool} {B : Nat}

/-- The same message `n` times, each in a batch of its own. -/
def rows (n : Nat) (op : SendOp) : List SendOp := (List.replicate n [op, .reset]).flatten

theorem rows_succ (n : Nat) (op : SendOp) : rows (n + 1) op = op :: .reset :: rows n op := by
  unfold rows
  rw [List.replicate_succ, List.flatten_cons]
  rfl

theorem mem_rows {n : Nat} {op op' : SendOp} (h : op' ∈ rows n op) : op' = op ∨ op' = .reset := by
  unfold rows at h
  obtain ⟨row, hrow, hmem⟩ := List.mem_flatten.mp h
  rw [List.eq_of_mem_replicate hrow] at hmem
  simpa using hmem

theorem run_row {s : Sender} (shared : Bool) (timestamp : UInt32) (fmt0 : Bool)
    (hs : Sendable packet header)
    (hneed : (s.out.stream header.csId).headerNeed header timestamp fmt0 ≤ 4096)
    (h0 : s.out.outCurrent = 0)
    (hlays : s.out.Lays []) :
    ∃ s₁ s₂, s.step (.build shared packet timestamp fmt0) = .ok s₁ ∧ s₁.step .reset = .ok s₂ ∧
      s₂.out.outCurrent = 0 ∧ s₂.out.Lays [] ∧
      s₂.sent = s.sent ++ (s.out.stream header.csId).encode header packet.data timestamp fmt0 := by
  have hl := hs.msgLen_lt
  obtain ⟨out', hbuild, hgrow⟩ := RtmpOut.buildChunk_grows (s := s.out) timestamp fmt0 hs.ext hs.msgLen
    (by omega) (by omega)
  have hw := hgrow.lays [] (RtmpOut.keep_lays packet hlays)
  refine ⟨{ s with out := out' }, ⟨out'.reset, _⟩, InStep.step_build hbuild, ?_, rfl, ⟨[], .nil, rfl⟩, rfl⟩
  rw [Sender.step, RtmpOut.sendingBytes_of_lays hw]
  rfl

theorem run_rows (shared : Bool) (hs : Sendable packet header) (hB : B ≤ 4096)
    (hneed : ∀ o : OutStream, o.headerNeed header timestamp fmt0 ≤ B) (n : Nat) (s : Sender)
    (h0 : s.out.outCurrent = 0) (hlays : s.out.Lays []) :
    HeadersFit s (rows n (.build shared packet timestamp fmt0)) ∧
      ∃ s' v, s.run (rows n (.build shared packet timestamp fmt0)) = .ok s' ∧ s'.out.Lays [] ∧
        s'.sent = s.sent ++ v ∧ n * packet.data.length ≤ v.length ∧
        v.length ≤ n * (B + packet.data.length) ∧
        (0 < n → (s.out.stream header.csId).encode header packet.data timestamp fmt0 <+: v) := by
  induction n generalizing s with
  | zero => exact ⟨trivial, s, [], rfl, hlays, (List.append_nil _).symm, by simp, by simp, nofun⟩
  | succ n ih =>
      have hneed' := hneed (s.out.stream header.csId)
      obtain ⟨s₁, s₂, hs₁, hs₂, h0', hlays', hsent⟩ := run_row (s := s) shared timestamp fmt0 hs
        (by omega) h0 hlays
      obtain ⟨hfit, s', v, hrun, hl, hv, hlo, hhi, -⟩ := ih s₂ h0' hlays'
      have hlen := (s.out.stream header.csId).encode_length timestamp fmt0 hs.msgLen
      rw [rows_succ]
      constructor
      · refine ⟨fun h hx => ?_, fun s₁' hs₁' => ⟨trivial, fun s₂' hs₂' => ?_⟩⟩
        · obtain rfl : header = h := Option.some.inj (hs.ext.symm.trans hx)
          rw [h0]
          omega
        · obtain rfl : s₁ = s₁' := Except.ok.inj (hs₁.symm.trans hs₁')
          obtain rfl : s₂ = s₂' := Except.ok.inj (hs₂.symm.trans hs₂')
          exact hfit
      · refine ⟨s', _, ?_, hl, by rw [hv, hsent, List.append_assoc], ?_, ?_, fun _ => List.prefix_append _ _⟩
        · rw [Sender.run, hs₁, ok_bind, Sender.run, hs₂, ok_bind, hrun]
        · rw [List.length_append, hlen, Nat.succ_mul]
          omega
        · rw [List.length_append, hlen, Nat.succ_mul]
          omega

theorem headerNeed_short (header : RtmpMsgHeader) (timestamp : UInt32) (fmt0 : Bool)
    (hcs : header.csId < 64) (hts : timestamp < 0xFFFFFF) (o : OutStream) :
    o.headerNeed header timestamp fmt0 ≤ 12 + continuations header.msgLen.toNat := by
  have hshort : (o.choose header timestamp fmt0).long = false := choose_short o header fmt0 hts
  have hbasic : ∀ fmt, (basicHeaderBytes fmt header.csId).length = 1 := fun fmt => by
    rw [basicHeaderBytes, if_pos hcs]
    rfl
  have heleven : (o.choose header timestamp fmt0).fmt.fieldBytes ≤ 11 := by
    cases (o.choose header timestamp fmt0).fmt <;> decide
  unfold OutStream.headerNeed firstHeader nextHeader
  dsimp only
  rw [extendedTimestamp_short hshort, List.append_nil, List.append_nil, List.length_append, hbasic,
    hbasic, headerFields_length]
  omega

end Rows

def audioHeader : RtmpMsgHeader := { csId := 4, msgLen := 3, msgType := 8, msgSid := 1 }

def audioPacket : Packet := { capacity := 3, data := [10, 20, 30], ext := some audioHeader }

theorem audioPacket_sendable : Sendable audioPacket audioHeader :=
  ⟨rfl, by decide, by decide, rfl, by decide, by decide, fun h => absurd h (by decide)⟩

theorem parseMessage_buildChunk_audio :
    ∃ s wire r, Sender.run {} (rows 2 (.build false audioPacket 40 false)) = .ok s ∧
      s.wire = .ok wire ∧
      ∀ pieces, pieces.flatten = wire → Fits parseMessage (2 ^ 31 - 1) { inChunkSize := 4096 } [] pieces →
        feed parseMessage { inChunkSize := 4096 } [] pieces =
          ⟨(rows 2 (.build false audioPacket 40 false)).filterMap SendOp.delivered, .ok (r, [])⟩ := by
  refine parseMessage_buildChunk _ ?_ (run_rows false audioPacket_sendable (by decide)
    (headerNeed_short audioHeader 40 false (by decide) (by decide)) 2 {} rfl ⟨[], .nil, rfl⟩).1
  intro shared packet timestamp fmt0 hmem
  rcases mem_rows hmem with h | h
  · obtain ⟨rfl, rfl, rfl, rfl⟩ := SendOp.build.inj h
    exact ⟨⟨audioHeader, rfl, by decide, by decide, rfl, by decide, by decide, by decide⟩, by decide⟩
  · cases h

/-- An audio message of sixteen million bytes on chunk stream 2. -/
def bigHeader : RtmpMsgHeader := { csId := 2, msgLen := 16000000, msgType := 8, msgSid := 1 }

def bigPacket : Packet :=
  { capacity := 16000000, data := List.replicate 16000000 0, ext := some bigHeader }

theorem bigPacket_sendable : Sendable bigPacket bigHeader := by
  have hlen : bigPacket.data.length = 16000000 := List.length_replicate
  exact ⟨rfl, by decide, by decide, hlen.symm, by decide, by decide, fun h => absurd h (by decide)⟩

/-- Over two gigabytes of messages, each well within its own batch, are more than one call can take. -/
theorem parseMessage_buildChunk_overlong :
    (∀ shared packet timestamp fmt0, SendOp.build shared packet timestamp fmt0 ∈
      rows 135 (.build true bigPacket 0 false) → Plain packet timestamp) ∧
    HeadersFit {} (rows 135 (.build true bigPacket 0 false)) ∧
    ∃ s wire, Sender.run {} (rows 135 (.build true bigPacket 0 false)) = .ok s ∧ s.wire = .ok wire ∧
      (parseMessage { inChunkSize := 4096 } wire).out ≠
        (rows 135 (.build true bigPacket 0 false)).filterMap SendOp.delivered := by
  have hlen : bigPacket.data.length = 16000000 := List.length_replicate
  obtain ⟨hfit, s, v, hrun, hlays, hsent, hlo, hhi, hhead⟩ := run_rows true bigPacket_sendable
    (by decide) (headerNeed_short bigHeader 0 false (by decide) (by decide)) 135 {} rfl ⟨[], .nil, rfl⟩
  refine ⟨?_, hfit, s, v, hrun, ?_, ?_⟩
  · intro shared packet timestamp fmt0 hmem
    rcases mem_rows hmem with h | h
    · obtain ⟨rfl, rfl, rfl, rfl⟩ := SendOp.build.inj h
      exact ⟨⟨bigHeader, rfl, by decide, by decide, hlen.symm, by decide, by decide, by decide⟩, by decide⟩
    · cases h
  · rw [Sender.wire, RtmpOut.sendingBytes_of_lays hlays, hsent]
    exact congrArg Except.ok (List.append_nil _)
  · obtain ⟨rest, hrest⟩ := hhead (by decide)
    have hfresh : (({} : Sender).out.stream bigHeader.csId).choose bigHeader 0 false = ⟨.fmt0, 0⟩ := rfl
    have hbasic : basicHeaderBytes .fmt0 bigHeader.csId = [2] := by decide
    have hcons : ∃ tail, v = 2 :: tail := by
      rw [← hrest, OutStream.encode, hfresh]
      unfold firstHeader
      dsimp only
      rw [hbasic]
      exact ⟨_, rfl⟩
    have hcount : continuations bigHeader.msgLen.toNat = 3906 := by decide
    obtain ⟨tail, rfl⟩ := hcons
    rw [hlen, List.length_cons] at hlo hhi
    rw [hcount] at hhi
    intro heq
    rw [parseMessage_gives_up _ tail (by omega) (by omega), rows_succ] at heq
    cases heq

end TmmsServer
