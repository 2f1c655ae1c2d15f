import TmmsServer.Rtmp.ChunkEncoding
import TmmsServer.Rtmp.ChunkResume

/-!
# What the parser makes of an encoded message

Each chunk of an encoding is taken by one pass of the parser. The header fields
come back from the bytes or from the history of the stream; the timestamp comes
back changed where the extended field is used.
-/
namespace TmmsServer
open Lib.Words Lib.Feed BytesReader BytesWriter

section BasicHeader

theorem basicByte_toNat (fmt : RtmpFmt) {c : Nat} (hc : c < 64) :
    (UInt8.ofNat (fmt.code <<< 6 ||| c)).toNat = fmt.code * 64 + c := by
  have hcode := fmt.code_lt
  rw [← Nat.shiftLeft_add_eq_or_of_lt (i := 6) hc, Nat.shiftLeft_eq, UInt8.toNat_ofNat']
  omega

theorem basicByte_fmt (fmt : RtmpFmt) {c : Nat} (hc : c < 64) :
    (fmt.code * 64 + c) >>> 6 &&& 3 = fmt.code := by
  have hcode := fmt.code_lt
  rw [Nat.shiftRight_eq_div_pow, Nat.and_two_pow_sub_one_eq_mod _ 2]
  omega

theorem basicByte_csId (fmt : RtmpFmt) {c : Nat} (hc : c < 64) :
    (fmt.code * 64 + c) &&& 0x3F = c := by
  rw [Nat.and_two_pow_sub_one_eq_mod _ 6]
  omega

/-- A basic header is read back from its bytes, whatever follows. -/
theorem basicHeader_bytes (fmt : RtmpFmt) {csid : UInt32} (hlo : 2 ≤ csid) (hhi : csid ≤ 65599)
    (p : List UInt8) :
    basicHeader (basicHeaderBytes fmt csid ++ p) (basicHeaderBytes fmt csid ++ p).length =
      .ok (some ⟨fmt, csid, (basicHeaderBytes fmt csid).length⟩) := by
  have hlo' : 2 ≤ csid.toNat := UInt32.le_iff_toNat_le.mp hlo
  have hhi' : csid.toNat ≤ 65599 := UInt32.le_iff_toNat_le.mp hhi
  unfold basicHeaderBytes
  split
  next h =>
    have hc : csid.toNat < 64 := UInt32.lt_iff_toNat_lt.mp h
    unfold basicHeader
    rw [List.singleton_append, readUint8T_cons, ok_bind, basicByte_toNat fmt hc,
      basicByte_fmt fmt hc, basicByte_csId fmt hc]
    dsimp only
    rw [if_neg (by omega), if_neg (by omega), UInt32.ofNat_toNat, RtmpFmt.ofCode_code]
    rfl
  next h =>
    have hc : ¬ csid.toNat < 64 := fun hlt => h (UInt32.lt_iff_toNat_lt.mpr hlt)
    have hsub : (csid - 64).toNat = csid.toNat - 64 := UInt32.toNat_sub_of_le _ _ (by
      rw [UInt32.le_iff_toNat_le]
      exact Nat.not_lt.mp hc)
    split
    next h' =>
      have hc' : csid.toNat < 320 := UInt32.lt_iff_toNat_lt.mp h'
      have hbyte : 64 + (csid - 64).toUInt8.toNat = csid.toNat := by
        rw [UInt32.toNat_toUInt8, hsub]
        omega
      unfold basicHeader
      rw [List.cons_append, List.singleton_append, readUint8T_cons, ok_bind, readUint8T_cons_succ,
        readUint8T_cons, basicByte_toNat fmt (by decide), basicByte_fmt fmt (by decide),
        basicByte_csId fmt (by decide), if_pos rfl, if_neg (by simp), ok_bind, hbyte,
        UInt32.ofNat_toNat, RtmpFmt.ofCode_code]
      rfl
    next h' =>
      have hword : (csid - 64).toUInt16.toNat = csid.toNat - 64 := by
        rw [UInt32.toNat_toUInt16, hsub]
        omega
      have hbytes : 64 + (UInt8.ofNat (csid.toNat - 64)).toNat +
          (UInt8.ofNat ((csid.toNat - 64) / 256)).toNat * 256 = csid.toNat := by
        rw [UInt8.toNat_ofNat', UInt8.toNat_ofNat']
        omega
      have hlen : ∀ a b c : UInt8, ¬ (a :: b :: c :: p).length < 3 := fun a b c => by
        simp only [List.length_cons]
        omega
      unfold basicHeader copyUint16
      rw [hword]
      simp only [leBytes, List.cons_append, List.nil_append]
      rw [readUint8T_cons, ok_bind, basicByte_toNat fmt (by decide), basicByte_fmt fmt (by decide),
        basicByte_csId fmt (by decide), if_neg (by decide), if_pos rfl]
      refine (if_neg (hlen _ _ _)).trans ?_
      rw [readUint8T_cons_succ, readUint8T_cons, ok_bind, readUint8T_cons_succ,
        readUint8T_cons_succ, readUint8T_cons, ok_bind, hbytes, UInt32.ofNat_toNat,
        RtmpFmt.ofCode_code]
      rfl

end BasicHeader

/-- The field is full and four more bytes follow. -/
def FmtChoice.long (c : FmtChoice) : Bool := timestampField c.timestamp == 0xFFFFFF

/-- The timestamp and the delta the receiver notes with the first chunk of a message. -/
structure Opening where
  timestamp : UInt32
  delta : UInt32
  deriving DecidableEq

/-- From the field alone; `prev` and `delta` are the receiver's for the stream. -/
def fieldOpening (c : FmtChoice) (prev delta : UInt32) : Opening :=
  match c.fmt with
  | .fmt0 => ⟨timestampField c.timestamp, 0⟩
  | .fmt1 | .fmt2 => ⟨timestampField c.timestamp + prev, timestampField c.timestamp⟩
  | .fmt3 => ⟨delta + prev, delta⟩

def opening (c : FmtChoice) (prev delta : UInt32) : Opening :=
  if c.long ∧ c.fmt ≠ .fmt0 then ⟨byteSwap c.timestamp + prev, byteSwap c.timestamp⟩
  else fieldOpening c prev delta

section FirstChunk
variable {o : OutStream} {header header₀ : RtmpMsgHeader} {timestamp : UInt32} {fmt0 : Bool} {c : FmtChoice}

theorem timestampField_lt (timestamp : UInt32) : (timestampField timestamp).toNat < 2 ^ 24 := by
  unfold timestampField
  split
  · decide
  next h =>
    have hlt : timestamp.toNat < 0xFFFFFF := by
      rw [UInt32.le_iff_toNat_le] at h
      exact Nat.not_le.mp h
    omega

theorem headerFields_length (fmt : RtmpFmt) (ts : UInt32) (header : RtmpMsgHeader) :
    (headerFields fmt ts header).length = fmt.fieldBytes := by
  cases fmt <;>
    simp [headerFields, RtmpFmt.fieldBytes, writeUint24T, writeUint8T, BytesWriter.copyUint32]

theorem fullFields_read (ts : UInt32) (hts : ts.toNat < 2 ^ 24) (header : RtmpMsgHeader)
    (hlen : header.msgLen.toNat < 2 ^ 24) (tail : List UInt8) :
    let p := writeUint24T ts ++ (writeUint24T header.msgLen ++ (writeUint8T header.msgType ++ tail))
    readUint24T p 0 = .ok ts ∧ readUint24T p 3 = .ok header.msgLen ∧ readUint8T p 6 = .ok header.msgType := by
  have h3 : (writeUint24T ts).length = 3 := beBytes_length 3 _
  have h6 : (writeUint24T ts ++ writeUint24T header.msgLen).length = 6 := by
    rw [List.length_append, h3, writeUint24T, beBytes_length]
  refine ⟨readUint24T_write (a := []) ts hts rfl, readUint24T_write _ hlen h3, ?_⟩
  rw [← List.append_assoc]
  exact readUint8T_write _ h6

/-- The receiver completes a header from its fields and from the previous header of the stream. -/
theorem messageHeader_first (hc : o.choose header timestamp fmt0 = c)
    (h₀ : header₀.csId = header.csId)
    (hz : header₀.timestamp = 0) (hlen : header.msgLen.toNat < 2 ^ 24) (delta : UInt32)
    (rest : List UInt8) :
    messageHeader c.fmt (o.header.getD {}) header₀ delta
        (headerFields c.fmt (timestampField c.timestamp) header ++ rest) =
      .ok ⟨if c.fmt = .fmt3 then 0 else timestampField c.timestamp,
        { header with timestamp := (fieldOpening c (o.header.getD {}).timestamp delta).timestamp },
        (fieldOpening c (o.header.getD {}).timestamp delta).delta, c.fmt.fieldBytes⟩ := by
  have hts := timestampField_lt c.timestamp
  rcases o.choose_cases header timestamp fmt0 with hfmt | ⟨prev, fmt, hprev, hfmt, -, hsid, hsame, -, hfull⟩
  · obtain ⟨fmt, x⟩ := c
    obtain ⟨rfl, rfl⟩ := FmtChoice.mk.inj (hc.symm.trans hfmt)
    obtain ⟨h0, h3, h6⟩ := fullFields_read (timestampField x) hts header hlen
      (BytesWriter.copyUint32 header.msgSid ++ rest)
    have h7 : (writeUint24T (timestampField x) ++ (writeUint24T header.msgLen ++
        writeUint8T header.msgType)).length = 7 := by
      simp only [List.length_append, writeUint24T, writeUint8T, beBytes_length]
    have hsid := copyUint32_write (c := rest) header.msgSid h7
    simp only [List.append_assoc] at hsid
    simp only [messageHeader, headerFields, List.append_assoc, h0, h3, h6, hsid, ok_bind,
      fieldOpening, ← h₀]
    rfl
  · obtain ⟨fmt', x⟩ := c
    obtain ⟨rfl, rfl⟩ := FmtChoice.mk.inj (hc.symm.trans hfull)
    rw [hprev, Option.getD_some]
    obtain ⟨csid, t, len, ty, sid⟩ := header
    dsimp only at h₀ hsid hsame hts hlen
    subst h₀ hsid
    cases fmt' with
    | fmt0 => exact absurd rfl hfmt
    | fmt1 =>
        obtain ⟨h0, h3, h6⟩ := fullFields_read (timestampField (timestamp - prev.timestamp)) hts
          ⟨header₀.csId, t, len, ty, prev.msgSid⟩ hlen rest
        simp only [messageHeader, headerFields, List.append_assoc, h0, h3, h6, ok_bind,
          fieldOpening]
        rfl
    | fmt2 =>
        obtain ⟨rfl, rfl⟩ := hsame (by decide)
        have h0 : readUint24T (writeUint24T (timestampField (timestamp - prev.timestamp)) ++ rest) 0 =
            .ok (timestampField (timestamp - prev.timestamp)) := readUint24T_write (a := []) _ hts rfl
        simp only [messageHeader, headerFields, h0, ok_bind, fieldOpening]
        rfl
    | fmt3 =>
        obtain ⟨rfl, rfl⟩ := hsame (by decide)
        simp only [messageHeader, hz, fieldOpening, if_true]
        rfl

theorem choose_prev_msgLen (hc : o.choose header timestamp fmt0 = c) (h0 : c.fmt ≠ .fmt0)
    (h1 : c.fmt ≠ .fmt1) : (o.header.getD {}).msgLen = header.msgLen := by
  rcases o.choose_cases header timestamp fmt0 with hfmt | ⟨prev, fmt, hprev, hfmt, -, -, hsame, -, hfull⟩
  · rw [hc] at hfmt
    exact absurd (congrArg FmtChoice.fmt hfmt) h0
  · rw [hc] at hfull
    have hne : fmt ≠ .fmt1 := fun h => h1 (by rw [hfull, h])
    rw [hprev, Option.getD_some, (hsame hne).1]

/-- The first chunk of a message opens a packet of the message's length. -/
theorem openPacket_first {t : InStream} (k : Int32) (hc : o.choose header timestamp fmt0 = c)
    (ht : t.header = o.header) (hp : t.packet = none) (hpos : header.msgLen ≠ 0)
    (hlen : header.msgLen.toNat < 2 ^ 24) (rest : List UInt8) :
    openPacket t c.fmt header.csId k (headerFields c.fmt (timestampField c.timestamp) header ++ rest) =
      .ok (o.header.getD {}, { capacity := header.msgLen.toNat
                               ext := some { csId := header.csId, msgLen := header.msgLen } }) := by
  have hnew : Packet.newPacket (int32 header.msgLen.toNat) =
      .ok { capacity := header.msgLen.toNat } := by
    rw [int32_of_lt (by omega) (by omega), Packet.newPacket_natCast]
  have hprev := choose_prev_msgLen hc
  unfold openPacket
  rw [hp, ht]
  cases hf : c.fmt with
  | fmt0 =>
      obtain ⟨-, hread, -⟩ := fullFields_read _ (timestampField_lt c.timestamp) header hlen
        (BytesWriter.copyUint32 header.msgSid ++ rest)
      simp only [headerFields, List.append_assoc, hread, true_or, if_true, ok_bind, hnew]
      rfl
  | fmt1 =>
      obtain ⟨-, hread, -⟩ := fullFields_read _ (timestampField_lt c.timestamp) header hlen rest
      simp only [headerFields, List.append_assoc, hread, or_true, if_true, ok_bind, hnew]
      rfl
  | fmt2 =>
      have hl := hprev (by rw [hf]; nofun) (by rw [hf]; nofun)
      simp only [hl, if_neg hpos, reduceCtorEq, or_false, if_false, pure_bind, hnew, ok_bind]
      rfl
  | fmt3 =>
      have hl := hprev (by rw [hf]; nofun) (by rw [hf]; nofun)
      simp only [hl, if_neg hpos, reduceCtorEq, or_false, if_false, pure_bind, hnew, ok_bind]
      rfl

theorem extendedTimestamp_long (h : c.long = true) :
    extendedTimestamp c.timestamp = BytesWriter.copyUint32 c.timestamp := if_pos (eq_of_beq h)

theorem extendedTimestamp_short (h : c.long = false) : extendedTimestamp c.timestamp = [] :=
  if_neg (ne_of_beq_false h)

/-- The header phase on the first chunk of a message. -/
theorem streamHeader_first (header₀ : RtmpMsgHeader) (hc : o.choose header timestamp fmt0 = c)
    (h₀ : header₀.csId = header.csId)
    (hz : header₀.timestamp = 0) (hlen : header.msgLen.toNat < 2 ^ 24) {ext : Bool} (delta : UInt32)
    (hext : c.fmt = .fmt3 → ext = c.long) (piece : List UInt8) {p : List UInt8}
    (hp : p = headerFields c.fmt (timestampField c.timestamp) header ++
      (extendedTimestamp c.timestamp ++ piece)) (hN : p.length < 2 ^ 31) :
    streamHeader c.fmt (o.header.getD {}) header₀ delta ext p p.length =
      .ok (.ready { header with timestamp := (opening c (o.header.getD {}).timestamp delta).timestamp }
        (opening c (o.header.getD {}).timestamp delta).delta c.long
        (c.fmt.fieldBytes + (extendedTimestamp c.timestamp).length)) := by
  have hm := messageHeader_first hc h₀ hz hlen delta (extendedTimestamp c.timestamp ++ piece)
  rw [← hp] at hm
  have hfields := headerFields_length c.fmt (timestampField c.timestamp) header
  have hplen : p.length = c.fmt.fieldBytes + ((extendedTimestamp c.timestamp).length + piece.length) := by
    rw [hp, List.length_append, List.length_append, hfields]
  rw [streamHeader_eq hm (by dsimp only; omega) hN]
  have hflag : (if c.fmt = .fmt3 then ext else
      (if c.fmt = .fmt3 then 0 else timestampField c.timestamp) == 0xFFFFFF) = c.long := by
    split
    next h => exact hext h
    next h => rfl
  dsimp only
  rw [hflag]
  unfold opening
  cases hlong : c.long with
  | false =>
      have hno : ¬ (false = true ∧ c.fmt ≠ .fmt0) := fun h => Bool.false_ne_true h.1
      rw [extField_false, extendedTimestamp_short hlong, if_neg hno]
      rfl
  | true =>
      rw [extendedTimestamp_long hlong] at hp hplen ⊢
      have hfour : (BytesWriter.copyUint32 c.timestamp).length = 4 := leBytes_length 4 _
      have hread : readUint32T p c.fmt.fieldBytes = .ok (byteSwap c.timestamp) := by
        rw [hp]
        exact readUint32T_copy c.timestamp hfields
      rw [extField_read (by dsimp only; omega) hread, hfour]
      by_cases h0 : c.fmt = .fmt0
      · have hno : ¬ (true = true ∧ c.fmt ≠ .fmt0) := fun h => h.2 h0
        rw [if_pos h0, if_neg hno]
      · have hyes : true = true ∧ c.fmt ≠ .fmt0 := ⟨rfl, h0⟩
        rw [if_neg h0, if_pos hyes]

end FirstChunk

/-- A packet of which `data` has arrived. -/
def Packet.partly (h : RtmpMsgHeader) (data : List UInt8) : Packet :=
  { capacity := h.msgLen.toNat, data, ext := some h }

/-- A packet as it is completed. -/
def Packet.received (h : RtmpMsgHeader) (body : List UInt8) : Packet :=
  { type := h.msgType.toNat, timestamp := h.timestamp.toUInt64, capacity := h.msgLen.toNat, data := body,
    ext := some h }

section Pass
variable {s : RtmpIn} {csid : UInt32} {h : RtmpMsgHeader} {d : UInt32} {e : Bool} {data piece hdr : List UInt8}

theorem space_partly (h : RtmpMsgHeader) (data : List UInt8) (hdata : data.length ≤ h.msgLen.toNat)
    (hl : h.msgLen.toNat < 2 ^ 24) :
    (Packet.partly h data).space = (h.msgLen.toNat - data.length : Nat) := by
  change int32 ((h.msgLen.toNat : Int) - (data.length : Int)) = _
  rw [int32_of_lt (by omega) (by omega)]
  omega

theorem copyBody_piece {t : InStream} {k : Int32} {packet : Packet}
    (hN : (hdr ++ piece).length < 2 ^ 31) (hbytes : min packet.space k.toInt = piece.length) :
    copyBody t h packet k (hdr ++ piece) (hdr ++ piece).length hdr.length =
      storeBody t h packet piece hdr.length := by
  have hlen : (hdr ++ piece).length = hdr.length + piece.length := List.length_append
  have hsub := uint32_sub (by omega : hdr.length ≤ (hdr ++ piece).length) (by omega)
  have hpiece : uint32 (piece.length : Nat) = piece.length := by
    rw [uint32_of_lt (by omega) (by omega), Int.toNat_natCast]
  have hread : readBytes (hdr ++ piece) hdr.length piece.length = .ok piece := by
    have hat := readBytes_at (a := hdr) (b := piece) (c := []) rfl rfl
    rwa [List.append_nil] at hat
  unfold copyBody
  dsimp only
  rw [hbytes, hsub, hpiece, if_neg (by omega), if_neg (by omega), Int.toNat_natCast, hread, ok_bind]

theorem storeBody_more {t : InStream} {n : Nat} (hl : h.msgLen.toNat < 2 ^ 24)
    (hlt : data.length + piece.length < h.msgLen.toNat) :
    storeBody t h (.partly h data) piece n = .ok (.chunk
      { t with header := some h, packet := some (.partly h (data ++ piece)) }
      (n + piece.length) none) := by
  have hfit : data.length + piece.length ≤ h.msgLen.toNat := Nat.le_of_lt hlt
  have hstore : (Packet.partly h data).store piece = .ok (.partly h (data ++ piece)) := if_pos hfit
  have hspace := space_partly h (data ++ piece) (by rw [List.length_append]; omega) hl
  unfold storeBody
  rw [hstore, ok_bind, hspace, if_neg (by rw [List.length_append]; omega)]
  rfl

theorem storeBody_done {t : InStream} {n : Nat} (hl : h.msgLen.toNat < 2 ^ 24)
    (heq : data.length + piece.length = h.msgLen.toNat) :
    storeBody t h (.partly h data) piece n = .ok (.chunk
      { t with header := some h, packet := none } (n + piece.length)
      (some (.received h (data ++ piece)))) := by
  have hfit : data.length + piece.length ≤ h.msgLen.toNat := Nat.le_of_eq heq
  have hstore : (Packet.partly h data).store piece = .ok (.partly h (data ++ piece)) := if_pos hfit
  have hspace := space_partly h (data ++ piece) (by rw [List.length_append]; omega) hl
  unfold storeBody
  rw [hstore, ok_bind, hspace, if_pos (by rw [List.length_append]; omega)]
  rfl

/-- A chunk behind its basic header, as one pass of the parser sees it: which packet it goes on
with, what its header says, and the piece of the body it brings. -/
structure Chunk (s : RtmpIn) (fmt : RtmpFmt) (csid : UInt32) (hdr piece : List UInt8) (h : RtmpMsgHeader)
    (d : UInt32) (e : Bool) (data : List UInt8) : Prop where
  csId_lo : 2 ≤ csid
  csId_hi : csid ≤ 65599
  chunkSize : s.inChunkSize = 4096
  fields : fmt.fieldBytes ≤ hdr.length
  header_small : hdr.length ≤ 15
  opens : ∃ prev packet h₀, openPacket (s.stream csid) fmt csid s.inChunkSize (hdr ++ piece) = .ok (prev, packet) ∧
    packet.ext = some h₀ ∧ packet.setExt h = .partly h data ∧
    streamHeader fmt prev h₀ (s.stream csid).delta (s.stream csid).ext (hdr ++ piece) (hdr ++ piece).length =
      .ok (.ready h d e hdr.length)
  msgLen : h.msgLen.toNat < 2 ^ 24
  piece_pos : 0 < piece.length
  piece_size : piece.length = min (h.msgLen.toNat - data.length) 4096

theorem basicHeaderBytes_small (fmt : RtmpFmt) (csid : UInt32) :
    (basicHeaderBytes fmt csid).length ≤ 3 := by
  unfold basicHeaderBytes
  split
  · exact Nat.le_add_left 1 2
  · split
    · exact Nat.le_add_left 2 1
    · exact Nat.le_refl 3

theorem Chunk.small {fmt : RtmpFmt} (hc : Chunk s fmt csid hdr piece h d e data) :
    (basicHeaderBytes fmt csid ++ (hdr ++ piece)).length ≤ 2 ^ 31 - 1 := by
  have hbasic := basicHeaderBytes_small fmt csid
  have hsmall := hc.header_small
  have hpiece := hc.piece_size
  rw [List.length_append, List.length_append]
  omega

/-- An attempt on bytes that begin with a basic header and are enough for the fields behind it. -/
theorem parseStep_stream {fmt : RtmpFmt} {p : List UInt8} (hlo : 2 ≤ csid) (hhi : csid ≤ 65599)
    (hfields : fmt.fieldBytes ≤ p.length) (hpos : 0 < p.length)
    (hsmall : (basicHeaderBytes fmt csid ++ p).length ≤ 2 ^ 31 - 1) :
    parseStep s (basicHeaderBytes fmt csid ++ p) =
      s.finishPass ⟨fmt, csid, (basicHeaderBytes fmt csid).length⟩
        (parseStream (s.stream csid) fmt csid s.inChunkSize p p.length) := by
  have hb := basicHeader_bytes fmt hlo hhi p
  have hdrop : (basicHeaderBytes fmt csid ++ p).drop (basicHeaderBytes fmt csid).length = p :=
    List.drop_left
  have hlen : (basicHeaderBytes fmt csid ++ p).length =
      (basicHeaderBytes fmt csid).length + p.length :=
    List.length_append
  have hbpos := basicHeaderBytes_pos fmt csid
  unfold parseStep
  rw [if_pos (by omega),
    parseChunk_stream hb (by dsimp only; omega) (by omega) (by dsimp only; omega)]
  dsimp only
  rw [hdrop]

theorem Chunk.parseStream_eq {fmt : RtmpFmt} (hc : Chunk s fmt csid hdr piece h d e data) :
    ∃ prev packet, parseStream (s.stream csid) fmt csid s.inChunkSize (hdr ++ piece) (hdr ++ piece).length =
      storeBody ⟨some prev, some packet, d, e⟩ h (.partly h data) piece hdr.length := by
  have hsmall := hc.small
  have hlen : (hdr ++ piece).length = hdr.length + piece.length := List.length_append
  have hk : s.inChunkSize.toInt = 4096 := by rw [hc.chunkSize]; rfl
  have hpiece := hc.piece_size
  have hpos := hc.piece_pos
  rw [List.length_append] at hsmall
  obtain ⟨prev, packet, h₀, ho, hx, hset, hh⟩ := hc.opens
  refine ⟨prev, packet.setExt h, ?_⟩
  rw [parseStream_open ho hx, hh, ok_bind]
  unfold bodyPass
  dsimp only
  rw [hset,
    copyBody_piece (by omega) (by rw [space_partly h data (by omega) hc.msgLen, hk, hpiece]; omega)]

theorem Chunk.parseStep_eq {fmt : RtmpFmt} (hc : Chunk s fmt csid hdr piece h d e data) :
    ∃ prev packet, parseStep s (basicHeaderBytes fmt csid ++ (hdr ++ piece)) =
      s.finishPass ⟨fmt, csid, (basicHeaderBytes fmt csid).length⟩
        (storeBody ⟨some prev, some packet, d, e⟩ h (.partly h data) piece hdr.length) := by
  have hfields := hc.fields
  have hpos := hc.piece_pos
  have hlen : (hdr ++ piece).length = hdr.length + piece.length := List.length_append
  obtain ⟨prev, packet, hstream⟩ := hc.parseStream_eq
  refine ⟨prev, packet, ?_⟩
  rw [parseStep_stream hc.csId_lo hc.csId_hi (by omega) (by omega) hc.small, hstream]

theorem Chunk.takes_more {fmt : RtmpFmt} (hc : Chunk s fmt csid hdr piece h d e data)
    (hlt : data.length + piece.length < h.msgLen.toNat) :
    Takes parseStep (2 ^ 31 - 1) s (basicHeaderBytes fmt csid ++ (hdr ++ piece))
      (s.setStream csid ⟨some h, some (.partly h (data ++ piece)), d, e⟩) [] := by
  obtain ⟨prev, packet, hstep⟩ := hc.parseStep_eq
  rw [storeBody_more hc.msgLen hlt] at hstep
  apply Takes.one hc.small
  rw [hstep, List.length_append, List.length_append]
  rfl

theorem Chunk.takes_done {fmt : RtmpFmt} (hc : Chunk s fmt csid hdr piece h d e data)
    (heq : data.length + piece.length = h.msgLen.toNat) :
    Takes parseStep (2 ^ 31 - 1) s (basicHeaderBytes fmt csid ++ (hdr ++ piece))
      ((s.setStream csid ⟨some h, none, d, e⟩).messageComplete (.received h (data ++ piece)))
      [.received h (data ++ piece)] := by
  obtain ⟨prev, packet, hstep⟩ := hc.parseStep_eq
  rw [storeBody_done hc.msgLen heq] at hstep
  apply Takes.one hc.small
  rw [hstep, List.length_append, List.length_append]
  rfl

end Pass

/-- The timestamp a message has reached after `n` continuation chunks. -/
def reread (c : FmtChoice) (n : Nat) (t : UInt32) : UInt32 :=
  if c.long then t + UInt32.ofNat n * byteSwap c.timestamp else t

theorem reread_zero (c : FmtChoice) (t : UInt32) : reread c 0 t = t := by
  unfold reread
  split
  · simp
  · rfl

theorem reread_succ (c : FmtChoice) (n : Nat) (t : UInt32) :
    reread c n (reread c 1 t) = reread c (n + 1) t := by
  unfold reread
  split
  · have hcast : UInt32.ofNat (n + 1) = UInt32.ofNat n + 1 := UInt32.ofNat_add n 1
    rw [hcast]
    have hone : UInt32.ofNat 1 = 1 := rfl
    rw [hone]
    grind
  · rfl

section Continuation
variable {s : RtmpIn} {c : FmtChoice} {h : RtmpMsgHeader} {d : UInt32} {data r : List UInt8}

/-- The delta noted after at least one continuation chunk. -/
def nextDelta (c : FmtChoice) (d : UInt32) : UInt32 := if c.long then byteSwap c.timestamp else d

theorem nextDelta_nextDelta (c : FmtChoice) (d : UInt32) :
    nextDelta c (nextDelta c d) = nextDelta c d := by
  unfold nextDelta
  split <;> rfl

/-- A continuation chunk as the parser sees it. -/
theorem continuation_chunk (hlo : 2 ≤ h.csId) (hhi : h.csId ≤ 65599) (hk : s.inChunkSize = 4096)
    (hst : s.stream h.csId = ⟨some h, some (.partly h data), d, c.long⟩)
    (hz : c.long = false → h.timestamp = 0 → d = 0) (hl : h.msgLen.toNat < 2 ^ 24) (piece : List UInt8)
    (hpos : 0 < piece.length) (hpiece : piece.length = min (h.msgLen.toNat - data.length) 4096) :
    Chunk s .fmt3 h.csId (extendedTimestamp c.timestamp) piece
      { h with timestamp := reread c 1 h.timestamp } (nextDelta c d) c.long data where
  csId_lo := hlo
  csId_hi := hhi
  chunkSize := hk
  fields := Nat.zero_le _
  header_small := by
    unfold extendedTimestamp
    split
    · rw [BytesWriter.copyUint32, leBytes_length]
      decide
    · exact Nat.zero_le _
  opens := by
    refine ⟨h, .partly h data, h, ?_, rfl, rfl, ?_⟩
    · rw [hst]
      exact openPacket_again h _ d c.long (Nat.zero_le _)
    · have hN : (extendedTimestamp c.timestamp ++ piece).length < 2 ^ 31 := by
        unfold extendedTimestamp
        split
        · rw [List.length_append, BytesWriter.copyUint32, leBytes_length]
          omega
        · rw [List.nil_append]
          omega
      rw [hst, streamHeader_eq (messageHeader_fmt3 h h d _) (Nat.zero_le _) hN, if_pos rfl]
      dsimp only
      unfold reread nextDelta
      cases hlong : c.long with
      | false =>
          have hts : (if h.timestamp = 0 then d + h.timestamp else h.timestamp) = h.timestamp := by
            by_cases h0 : h.timestamp = 0
            · rw [if_pos h0, h0, hz hlong h0]
              rfl
            · rw [if_neg h0]
          rw [extField_false, extendedTimestamp_short hlong, hts]
          rfl
      | true =>
          have hfour : (BytesWriter.copyUint32 c.timestamp).length = 4 := leBytes_length 4 _
          have hread : readUint32T (extendedTimestamp c.timestamp ++ piece) 0 =
              .ok (byteSwap c.timestamp) := by
            rw [extendedTimestamp_long hlong]
            exact readUint32T_copy (a := []) c.timestamp rfl
          have hne : RtmpFmt.fmt3 ≠ .fmt0 := by decide
          have hone : UInt32.ofNat 1 = 1 := rfl
          have hroom : ¬ (extendedTimestamp c.timestamp ++ piece).length - 0 < 4 := by
            rw [extendedTimestamp_long hlong, List.length_append]
            omega
          rw [extField_read hroom hread, extendedTimestamp_long hlong, if_neg hne, if_pos rfl,
            if_pos rfl, hone, UInt32.one_mul, UInt32.add_comm h.timestamp (byteSwap _), hfour]
  msgLen := hl
  piece_pos := hpos
  piece_size := hpiece

/-- The rest of a body, from its next continuation header on. -/
theorem takes_continuation (hlo : 2 ≤ h.csId) (hhi : h.csId ≤ 65599) (hk : s.inChunkSize = 4096)
    (hst : s.stream h.csId = ⟨some h, some (.partly h data), d, c.long⟩)
    (hz : c.long = false → h.timestamp = 0 → d = 0) (hl : h.msgLen.toNat < 2 ^ 24) (hr : r ≠ [])
    (hlen : data.length + r.length = h.msgLen.toNat) :
    let h' := { h with timestamp := reread c (continuations r.length + 1) h.timestamp }
    Takes parseStep (2 ^ 31 - 1) s
      (nextHeader h.csId c.timestamp ++ chunkedBody (nextHeader h.csId c.timestamp) r)
      ((s.setStream h.csId ⟨some h', none, nextDelta c d, c.long⟩).messageComplete (.received h' (data ++ r)))
      [.received h' (data ++ r)] := by
  induction hn : r.length using Nat.strongRecOn generalizing s h d data r with
  | ind n ih =>
      have hpos : 0 < r.length := List.length_pos_iff.mpr hr
      by_cases hlast : r.length ≤ 4096
      · have hnone : continuations n + 1 = 1 := by unfold continuations; omega
        have hchunk := continuation_chunk hlo hhi hk hst hz hl r hpos (by omega)
        rw [hnone, chunkedBody_short hlast, nextHeader, List.append_assoc]
        exact hchunk.takes_done hlen
      · have htake : (r.take 4096).length = 4096 := by rw [List.length_take]; omega
        have hdrop : (r.drop 4096).length = r.length - 4096 := List.length_drop
        have hchunk := continuation_chunk hlo hhi hk hst hz hl (r.take 4096) (by omega) (by omega)
        have hfirst := hchunk.takes_more (by dsimp only; omega)
        have hrest := @ih (r.drop 4096).length (by omega)
          (s.setStream h.csId ⟨some { h with timestamp := reread c 1 h.timestamp },
            some (.partly { h with timestamp := reread c 1 h.timestamp } (data ++ r.take 4096)),
            nextDelta c d, c.long⟩)
          { h with timestamp := reread c 1 h.timestamp } (nextDelta c d)
          (data ++ r.take 4096) (r.drop 4096) hlo hhi hk (RtmpIn.stream_setStream _ _ _)
          (by
            intro hlong h0
            unfold reread at h0
            unfold nextDelta
            rw [hlong] at h0 ⊢
            exact hz hlong h0) hl
          (List.length_pos_iff.mp (by omega)) (by rw [List.length_append]; dsimp only; omega) rfl
        have hcount : continuations (r.drop 4096).length + 1 + 1 = continuations n + 1 := by
          unfold continuations
          omega
        dsimp only at hrest ⊢
        rw [reread_succ, hcount, nextDelta_nextDelta, List.append_assoc, List.take_append_drop,
          RtmpIn.setStream_setStream] at hrest
        rw [chunkedBody_long (by omega), nextHeader, List.append_assoc,
          ← List.append_assoc (extendedTimestamp _)]
        rw [← List.append_assoc (basicHeaderBytes _ _)]
        exact hfirst.append hrest

end Continuation
end TmmsServer
