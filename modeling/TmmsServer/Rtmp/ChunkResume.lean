import TmmsServer.Rtmp.ChunkReader

/-!
# Deliveries may be cut anywhere

Every write a pass makes before it finds the chunk incomplete is made again, with
the same value, by the pass that sees more of the chunk. So the parser is a
resumable reader as long as the unread bytes fit an `int32_t`.
-/
namespace TmmsServer
open Lib.Words Lib.Feed BytesReader

theorem uint32_sub {a b : Nat} (h : a ≤ b) (hb : b < 2 ^ 32) : uint32 (b - a) = b - a := by
  rw [uint32_of_lt (by omega) (by omega)]
  omega

theorem int32_sub {a b : Nat} (h : a ≤ b) (hb : b < 2 ^ 31) : int32 (b - a) = b - a :=
  int32_of_lt (by omega) (by omega)

section Reads
variable {p : List UInt8} {off : Nat} (v : List UInt8)

theorem readUint8T_append (h : off + 1 ≤ p.length) :
    readUint8T (p ++ v) off = readUint8T p off := by
  rw [readUint8T, readBytes_append v h, readUint8T]

theorem readUint24T_append (h : off + 3 ≤ p.length) :
    readUint24T (p ++ v) off = readUint24T p off := by
  rw [readUint24T, readBytes_append v h, readUint24T]

theorem readUint32T_append (h : off + 4 ≤ p.length) :
    readUint32T (p ++ v) off = readUint32T p off := by
  rw [readUint32T, readBytes_append v h, readUint32T]

theorem copyUint32_append (h : off + 4 ≤ p.length) :
    copyUint32 (p ++ v) off = copyUint32 p off := by
  rw [copyUint32, readBytes_append v h, copyUint32]

theorem readUint8T_ok (p : List UInt8) (off : Nat) (h : off + 1 ≤ p.length) :
    ∃ x, readUint8T p off = .ok x := by
  rw [readUint8T, readBytes_of_le h]; exact ⟨_, rfl⟩

theorem readUint24T_ok (p : List UInt8) (off : Nat) (h : off + 3 ≤ p.length) :
    ∃ x, readUint24T p off = .ok x := by
  rw [readUint24T, readBytes_of_le h]; exact ⟨_, rfl⟩

theorem readUint32T_ok (p : List UInt8) (off : Nat) (h : off + 4 ≤ p.length) :
    ∃ x, readUint32T p off = .ok x := by
  rw [readUint32T, readBytes_of_le h]; exact ⟨_, rfl⟩

theorem copyUint32_ok (p : List UInt8) (off : Nat) (h : off + 4 ≤ p.length) :
    ∃ x, copyUint32 p off = .ok x := by
  rw [copyUint32, readBytes_of_le h]; exact ⟨_, rfl⟩

end Reads

/-- The bytes of a message header behind the basic header. -/
def RtmpFmt.fieldBytes : RtmpFmt → Nat
  | .fmt0 => 11
  | .fmt1 => 7
  | .fmt2 => 3
  | .fmt3 => 0

section Header
variable {fmt : RtmpFmt} {prev : RtmpMsgHeader} {p : List UInt8}

/-- Formats 0 to 2 fill the header from the bytes alone, whatever was noted in it before. -/
theorem messageHeader_fields (prev : RtmpMsgHeader) (hfmt : fmt ≠ .fmt3)
    (hp : fmt.fieldBytes ≤ p.length) (c : UInt32) :
    ∃ ts filled δ, filled.csId = c ∧ ∀ v (header : RtmpMsgHeader) delta, header.csId = c →
      messageHeader fmt prev header delta (p ++ v) = .ok ⟨ts, filled, δ, fmt.fieldBytes⟩ := by
  cases fmt with
  | fmt0 =>
      have hlen : 11 ≤ p.length := hp
      obtain ⟨ts, hts⟩ := readUint24T_ok p 0 (by omega)
      obtain ⟨len, hl⟩ := readUint24T_ok p 3 (by omega)
      obtain ⟨ty, hty⟩ := readUint8T_ok p 6 (by omega)
      obtain ⟨sid, hsid⟩ := copyUint32_ok p 7 (by omega)
      refine ⟨ts, ⟨c, ts, len, ty, sid⟩, 0, rfl, fun v header delta hc => ?_⟩
      rw [← hc, messageHeader, readUint24T_append v (by omega), readUint24T_append v (by omega),
        readUint8T_append v (by omega), copyUint32_append v (by omega), hts, hl, hty, hsid]
      rfl
  | fmt1 =>
      have hlen : 7 ≤ p.length := hp
      obtain ⟨ts, hts⟩ := readUint24T_ok p 0 (by omega)
      obtain ⟨len, hl⟩ := readUint24T_ok p 3 (by omega)
      obtain ⟨ty, hty⟩ := readUint8T_ok p 6 (by omega)
      refine ⟨ts, ⟨c, ts + prev.timestamp, len, ty, prev.msgSid⟩, ts, rfl, fun v header delta hc => ?_⟩
      rw [← hc, messageHeader, readUint24T_append v (by omega), readUint24T_append v (by omega),
        readUint8T_append v (by omega), hts, hl, hty]
      rfl
  | fmt2 =>
      have hlen : 3 ≤ p.length := hp
      obtain ⟨ts, hts⟩ := readUint24T_ok p 0 (by omega)
      refine ⟨ts, { prev with csId := c, timestamp := ts + prev.timestamp }, ts, rfl,
        fun v header delta hc => ?_⟩
      rw [← hc, messageHeader, readUint24T_append v (by omega), hts]
      rfl
  | fmt3 => exact absurd rfl hfmt

/-- The header phase behind its fields: the extended timestamp, present when `ext` says so. -/
def extField (fmt : RtmpFmt) (prev : RtmpMsgHeader) (m : MessageHeader) (ext : Bool)
    (p : List UInt8) (avail : Nat) : Checked HeaderPass :=
  if ext then
    if avail - m.parsed < 4 then .ok (.short m.header m.delta ext)
    else (readUint32T p m.parsed).map fun ts =>
      if fmt = .fmt0 then .ready m.header m.delta ext (m.parsed + 4)
      else .ready { m.header with timestamp := ts + prev.timestamp } ts ext (m.parsed + 4)
  else .ok (.ready m.header m.delta ext m.parsed)

theorem streamHeader_eq {header : RtmpMsgHeader} {delta : UInt32} {ext : Bool} {m : MessageHeader}
    (hm : messageHeader fmt prev header delta p = .ok m) (hp : m.parsed ≤ p.length)
    (hN : p.length < 2 ^ 31) :
    streamHeader fmt prev header delta ext p p.length =
      extField fmt prev m (if fmt = .fmt3 then ext else m.ts == 0xFFFFFF) p p.length := by
  have hsub := uint32_sub hp (by omega)
  unfold streamHeader extField
  rw [hm]
  simp only [bind, Except.bind, pure, Except.pure, hsub]
  generalize (if fmt = .fmt3 then ext else m.ts == 0xFFFFFF) = e
  cases e with
  | false => rfl
  | true =>
      simp only [if_true]
      split
      · rfl
      · cases readUint32T p m.parsed with
        | error e => rfl
        | ok ts => simp only [Except.map]; split <;> rfl

theorem extField_false (m : MessageHeader) (q : List UInt8) (n : Nat) :
    extField fmt prev m false q n = .ok (.ready m.header m.delta false m.parsed) := rfl

theorem extField_short (m : MessageHeader) {q : List UInt8} {n : Nat} (h : n - m.parsed < 4) :
    extField fmt prev m true q n = .ok (.short m.header m.delta true) := by
  simp [extField, h]

theorem extField_read {m : MessageHeader} {q : List UInt8} {n : Nat} {ts : UInt32}
    (h : ¬ n - m.parsed < 4) (hts : readUint32T q m.parsed = .ok ts) :
    extField fmt prev m true q n = .ok (
      if fmt = .fmt0 then .ready m.header m.delta true (m.parsed + 4)
      else .ready { m.header with timestamp := ts + prev.timestamp } ts true (m.parsed + 4)) := by
  simp [extField, h, hts, Except.map]

theorem messageHeader_fmt3 (prev header : RtmpMsgHeader) (delta : UInt32) (q : List UInt8) :
    messageHeader .fmt3 prev header delta q = .ok ⟨0, { prev with
      csId := header.csId
      timestamp := if header.timestamp = 0 then delta + prev.timestamp else header.timestamp }, delta, 0⟩ :=
  rfl

theorem fmt3_timestamp_again (t d : UInt32) :
    (if (if t = 0 then d else t) = 0 then d else (if t = 0 then d else t)) = (if t = 0 then d else t) := by
  by_cases ht : t = 0
  · simp [ht]
  · simp [ht]

/-- The outcome of the header phase on `p`, and what it says about longer inputs. -/
inductive HeaderResumes (fmt : RtmpFmt) (prev header : RtmpMsgHeader) (delta : UInt32) (ext : Bool)
    (p v : List UInt8) : HeaderPass → Prop
  | short {h d e} :
      streamHeader fmt prev h d e (p ++ v) (p ++ v).length =
        streamHeader fmt prev header delta ext (p ++ v) (p ++ v).length →
      HeaderResumes fmt prev header delta ext p v (.short h d e)
  | ready {h d e n} : n ≤ p.length →
      streamHeader fmt prev header delta ext (p ++ v) (p ++ v).length = .ok (.ready h d e n) →
      streamHeader fmt prev h d e (p ++ v) (p ++ v).length = .ok (.ready h d e n) →
      HeaderResumes fmt prev header delta ext p v (.ready h d e n)

/-- A chunk without header of its own takes the fields of the last one. -/
theorem streamHeader_resumes_fmt3 (prev header : RtmpMsgHeader) (delta : UInt32) (ext : Bool)
    (v : List UInt8) (hN : (p ++ v).length < 2 ^ 31) :
    ∃ r, streamHeader .fmt3 prev header delta ext p p.length = .ok r ∧
      HeaderResumes .fmt3 prev header delta ext p v r := by
  have hpv : p.length ≤ (p ++ v).length := by rw [List.length_append]; omega
  have look : ∀ (h : RtmpMsgHeader) d e (q : List UInt8), q.length < 2 ^ 31 →
      streamHeader .fmt3 prev h d e q q.length = extField .fmt3 prev ⟨0, { prev with
        csId := h.csId
        timestamp := if h.timestamp = 0 then d + prev.timestamp else h.timestamp }, d, 0⟩ e q q.length :=
    fun h d e q hq => streamHeader_eq (messageHeader_fmt3 prev h d q) (Nat.zero_le _) hq
  rw [look _ _ _ _ (by omega)]
  cases ext with
  | false =>
      refine ⟨_, extField_false _ _ _, .ready (Nat.zero_le _) ?_ ?_⟩
      · rw [look _ _ _ _ hN, extField_false]
      · rw [look _ _ _ _ hN, extField_false]
        simp only [fmt3_timestamp_again]
  | true =>
      by_cases hshort : p.length - 0 < 4
      · refine ⟨_, extField_short _ hshort, .short ?_⟩
        rw [look _ _ _ _ hN, look _ _ _ _ hN]
        simp only [fmt3_timestamp_again]
      · obtain ⟨x, hx⟩ := readUint32T_ok p 0 (by omega)
        have hx' : readUint32T (p ++ v) 0 = .ok x := by rw [readUint32T_append v (by omega), hx]
        have hlong : ¬ (p ++ v).length - 0 < 4 := by omega
        have h0 : RtmpFmt.fmt3 ≠ .fmt0 := nofun
        refine ⟨_, extField_read hshort hx, ?_⟩
        simp only [if_neg h0]
        refine .ready (by omega) ?_ ?_
        · rw [look _ _ _ _ hN, extField_read hlong hx', if_neg h0]
        · rw [look _ _ _ _ hN, extField_read hlong hx', if_neg h0]

/-- A chunk with fields of its own reads them again, whatever was kept of them. -/
theorem streamHeader_resumes_fields (prev header : RtmpMsgHeader) (delta : UInt32) (ext : Bool)
    (v : List UInt8) (hfmt : fmt ≠ .fmt3) (hp : fmt.fieldBytes ≤ p.length) (hN : (p ++ v).length < 2 ^ 31) :
    ∃ r, streamHeader fmt prev header delta ext p p.length = .ok r ∧
      HeaderResumes fmt prev header delta ext p v r := by
  have hpv : p.length ≤ (p ++ v).length := by rw [List.length_append]; omega
  obtain ⟨ts, filled, δ, hc, hm⟩ := messageHeader_fields prev hfmt hp header.csId
  have look : ∀ (h : RtmpMsgHeader) d e w, h.csId = header.csId → (p ++ w).length < 2 ^ 31 →
      streamHeader fmt prev h d e (p ++ w) (p ++ w).length =
        extField fmt prev ⟨ts, filled, δ, fmt.fieldBytes⟩ (ts == 0xFFFFFF) (p ++ w) (p ++ w).length := by
    intro h d e w hh hw
    rw [streamHeader_eq (hm w h d hh) (Nat.le_trans hp (by rw [List.length_append]; omega)) hw,
      if_neg hfmt]
  have hself := look header delta ext [] rfl (by simpa using Nat.lt_of_le_of_lt hpv hN)
  rw [List.append_nil] at hself
  rw [hself]
  generalize (ts == 0xFFFFFF) = e at look
  cases e with
  | false =>
      refine ⟨_, extField_false _ _ _, .ready hp ?_ ?_⟩
      · rw [look _ _ _ _ rfl hN, extField_false]
      · rw [look _ _ _ _ hc hN, extField_false]
  | true =>
      by_cases hshort : p.length - fmt.fieldBytes < 4
      · refine ⟨_, extField_short _ hshort, .short ?_⟩
        rw [look _ _ _ _ hc hN, look _ _ _ _ rfl hN]
      · obtain ⟨x, hx⟩ := readUint32T_ok p fmt.fieldBytes (by omega)
        have hx' : readUint32T (p ++ v) fmt.fieldBytes = .ok x := by
          rw [readUint32T_append v (by omega), hx]
        have hlong : ¬ (p ++ v).length - fmt.fieldBytes < 4 := by omega
        refine ⟨_, extField_read hshort hx, ?_⟩
        by_cases h0 : fmt = .fmt0
        · simp only [if_pos h0]
          refine .ready (by omega) ?_ ?_
          · rw [look _ _ _ _ rfl hN, extField_read hlong hx', if_pos h0]
          · rw [look _ _ _ _ hc hN, extField_read hlong hx', if_pos h0]
        · simp only [if_neg h0]
          refine .ready (by omega) ?_ ?_
          · rw [look _ _ _ _ rfl hN, extField_read hlong hx', if_neg h0]
          · rw [look { filled with timestamp := x + prev.timestamp } x true v hc hN,
              extField_read hlong hx', if_neg h0]

theorem streamHeader_resumes (prev header : RtmpMsgHeader) (delta : UInt32) (ext : Bool)
    (v : List UInt8) (hp : fmt.fieldBytes ≤ p.length) (hN : (p ++ v).length < 2 ^ 31) :
    ∃ r, streamHeader fmt prev header delta ext p p.length = .ok r ∧
      HeaderResumes fmt prev header delta ext p v r := by
  by_cases hfmt : fmt = .fmt3
  · subst hfmt
    exact streamHeader_resumes_fmt3 prev header delta ext v hN
  · exact streamHeader_resumes_fields prev header delta ext v hfmt hp hN

end Header
section Body
variable {t : InStream} {header : RtmpMsgHeader} {packet : Packet} {k : Int32} {p : List UInt8}

theorem Packet.space_bounds (packet : Packet) : -2 ^ 31 ≤ packet.space ∧ packet.space < 2 ^ 31 := by
  unfold Packet.space int32
  rw [Int.bmod_def]
  split <;> omega

/-- What `copyBody` takes is decided by the bytes it takes. -/
theorem copyBody_resumes {parsed : Nat} (t : InStream) (header : RtmpMsgHeader) (packet : Packet)
    (k : Int32) (v : List UInt8) (hp : parsed ≤ p.length)
    (hN : (p ++ v).length < 2 ^ 31) :
    copyBody t header packet k p p.length parsed = .ok (.more t) ∨
      ∃ body, parsed + body.length ≤ p.length ∧ (body.length : Int) ≤ packet.space ∧
        copyBody t header packet k p p.length parsed = storeBody t header packet body parsed ∧
        copyBody t header packet k (p ++ v) (p ++ v).length parsed = storeBody t header packet body parsed := by
  have hlen : (p ++ v).length = p.length + v.length := List.length_append
  have hs := packet.space_bounds
  have hk := k.le_toInt
  have hk' := k.toInt_lt
  have hsub := uint32_sub hp (by omega)
  have hsub' := uint32_sub (Nat.le_trans hp (by omega : p.length ≤ (p ++ v).length)) (by omega)
  unfold copyBody
  dsimp only
  rw [hsub, hsub']
  generalize hb : min packet.space k.toInt = bytes
  by_cases hneg : bytes < 0
  · have hbytes := uint32_of_neg hneg (by omega)
    exact .inl (by rw [hbytes, if_pos (by omega)])
  · have hbytes := uint32_of_lt (x := bytes) (by omega) (by omega)
    rw [hbytes]
    by_cases hshort : p.length - parsed < bytes.toNat
    · exact .inl (if_pos hshort)
    · have hin : parsed + bytes.toNat ≤ p.length := by omega
      have hbody : ((p.drop parsed).take bytes.toNat).length = bytes.toNat := by
        rw [List.length_take, List.length_drop]
        omega
      refine .inr ⟨(p.drop parsed).take bytes.toNat, by omega, by omega, ?_, ?_⟩
      · rw [if_neg hshort, if_neg hneg, readBytes_of_le hin]
        rfl
      · rw [if_neg (by omega), if_neg hneg, readBytes_append v hin, readBytes_of_le hin]
        rfl

theorem bodyPass_setExt (prev h : RtmpMsgHeader) (packet : Packet) (k : Int32) (p : List UInt8)
    (avail : Nat) : bodyPass prev (packet.setExt h) k p avail = bodyPass prev packet k p avail := by
  funext r
  cases r with
  | short h d e => rfl
  | ready h d e n => rfl

theorem storeBody_not_more {body : List UInt8} {parsed : Nat} (t' : InStream) :
    storeBody t header packet body parsed ≠ .ok (.more t') := by
  intro h
  unfold storeBody at h
  cases hs : packet.store body with
  | error e => rw [hs] at h; cases h
  | ok packet' =>
      rw [hs] at h
      simp only [bind, Except.bind, pure, Except.pure] at h
      split at h <;> cases h

theorem storeBody_parsed {body : List UInt8} {parsed n : Nat} {t' : InStream} {done : Option Packet}
    (h : storeBody t header packet body parsed = .ok (.chunk t' n done)) :
    n = parsed + body.length := by
  unfold storeBody at h
  cases hs : packet.store body with
  | error e => rw [hs] at h; cases h
  | ok packet' =>
      rw [hs] at h
      simp only [bind, Except.bind, pure, Except.pure] at h
      split at h <;> cases h <;> rfl

end Body

section Stream
variable {t : InStream} {fmt : RtmpFmt} {csid : UInt32} {k : Int32} {p : List UInt8}

theorem openPacket_append (v : List UInt8) (hp : fmt.fieldBytes ≤ p.length) :
    openPacket t fmt csid k (p ++ v) = openPacket t fmt csid k p := by
  unfold openPacket
  cases fmt with
  | fmt0 => rw [readUint24T_append v (Nat.le_trans (by decide) hp)]
  | fmt1 => rw [readUint24T_append v (Nat.le_trans (by decide) hp)]
  | fmt2 => rfl
  | fmt3 => rfl

theorem openPacket_again (prev : RtmpMsgHeader) (packet' : Packet) (d : UInt32) (e : Bool)
    (hp : fmt.fieldBytes ≤ p.length) :
    openPacket ⟨some prev, some packet', d, e⟩ fmt csid k p = .ok (prev, packet') := by
  unfold openPacket
  cases fmt with
  | fmt0 =>
      obtain ⟨x, hx⟩ := readUint24T_ok p 3 (Nat.le_trans (by decide) hp)
      simp only [true_or, if_true, hx]
      rfl
  | fmt1 =>
      obtain ⟨x, hx⟩ := readUint24T_ok p 3 (Nat.le_trans (by decide) hp)
      simp only [or_true, if_true, hx]
      rfl
  | fmt2 => rfl
  | fmt3 => rfl

theorem parseStream_open {prev header : RtmpMsgHeader} {packet : Packet} {avail : Nat}
    (ho : openPacket t fmt csid k p = .ok (prev, packet)) (hx : packet.ext = some header) :
    parseStream t fmt csid k p avail =
      (streamHeader fmt prev header t.delta t.ext p avail >>= bodyPass prev packet k p avail) := by
  unfold parseStream
  rw [ho]
  simp only [bind, Except.bind, hx]

/-- The three outcomes of a pass, and what each says about a longer input. -/
theorem parseStream_resumes (v : List UInt8) (hp : fmt.fieldBytes ≤ p.length)
    (hN : (p ++ v).length < 2 ^ 31) :
    (∃ t', parseStream t fmt csid k p p.length = .ok (.more t') ∧
      parseStream t' fmt csid k (p ++ v) (p ++ v).length =
        parseStream t fmt csid k (p ++ v) (p ++ v).length) ∨
    (∃ t' n done, parseStream t fmt csid k p p.length = .ok (.chunk t' n done) ∧ n ≤ p.length ∧
      parseStream t fmt csid k (p ++ v) (p ++ v).length = .ok (.chunk t' n done)) ∨
    (∃ e, parseStream t fmt csid k p p.length = .error e ∧
      parseStream t fmt csid k (p ++ v) (p ++ v).length = .error e) := by
  have hpv : fmt.fieldBytes ≤ (p ++ v).length := by rw [List.length_append]; omega
  have hopen : openPacket t fmt csid k (p ++ v) = openPacket t fmt csid k p :=
    openPacket_append v hp
  cases ho : openPacket t fmt csid k p with
  | error e => exact .inr (.inr ⟨e, by unfold parseStream; rw [ho]; rfl, by
      unfold parseStream; rw [hopen, ho]; rfl⟩)
  | ok q =>
      obtain ⟨prev, packet⟩ := q
      rw [ho] at hopen
      cases hx : packet.ext with
      | none => exact .inr (.inr ⟨.nullDeref, by
          unfold parseStream; rw [ho]; simp only [bind, Except.bind, hx]; rfl, by
          unfold parseStream; rw [hopen]; simp only [bind, Except.bind, hx]; rfl⟩)
      | some header =>
          rw [parseStream_open ho hx, parseStream_open hopen hx]
          -- a pass that starts from the notes of this one opens the same packet
          have again : ∀ h d e, parseStream ⟨some prev, some (packet.setExt h), d, e⟩ fmt csid k (p ++ v)
              (p ++ v).length = (streamHeader fmt prev h d e (p ++ v) (p ++ v).length >>=
                bodyPass prev packet k (p ++ v) (p ++ v).length) := by
            intro h d e
            have hx : (packet.setExt h).ext = some h := rfl
            rw [parseStream_open (openPacket_again prev (packet.setExt h) d e hpv) hx,
              bodyPass_setExt]
          obtain ⟨r, hr, hres⟩ := streamHeader_resumes prev header t.delta t.ext v hp hN
          rw [hr]
          cases hres with
          | short hagain => exact .inl ⟨_, rfl, by rw [again, hagain]⟩
          | @ready h d e n hn hq hagain =>
              rw [hq]
              rcases copyBody_resumes ⟨some prev, some (packet.setExt h), d, e⟩ h
                (packet.setExt h) k v hn hN with hmore | ⟨body, hbody, -, hthis, hlong⟩
              · refine .inl ⟨_, hmore, ?_⟩
                rw [again, hagain]
              · cases hs : storeBody ⟨some prev, some (packet.setExt h), d, e⟩ h (packet.setExt h) body n with
                | error err => exact .inr (.inr ⟨err, hthis.trans hs, hlong.trans hs⟩)
                | ok pass =>
                    cases pass with
                    | more t' => exact absurd hs (storeBody_not_more t')
                    | chunk t' n' done =>
                        have hn' := storeBody_parsed hs
                        exact .inr (.inl ⟨t', n', done, hthis.trans hs, by omega, hlong.trans hs⟩)

end Stream

/-! ## The reader -/

/-- An attempt of the loop: at most one byte left counts as too few. -/
def parseStep (s : RtmpIn) (buf : List UInt8) : Attempt RtmpIn Packet Fault :=
  if 1 < buf.length then parseChunk s buf buf.length else .wait s

theorem basicHeader_resumes {pos : List UInt8} (v : List UInt8) (h : 1 < pos.length) :
    basicHeader pos pos.length = .ok none ∨
      ∃ b, b.parsed ≤ pos.length ∧ 0 < b.parsed ∧ basicHeader pos pos.length = .ok (some b) ∧
        basicHeader (pos ++ v) (pos ++ v).length = .ok (some b) := by
  have hlen : (pos ++ v).length = pos.length + v.length := List.length_append
  obtain ⟨b, hb⟩ := readUint8T_ok pos 0 (by omega)
  obtain ⟨b₁, hb₁⟩ := readUint8T_ok pos 1 (by omega)
  have hb' : readUint8T (pos ++ v) 0 = .ok b := (readUint8T_append v (by omega)).trans hb
  have hb₁' : readUint8T (pos ++ v) 1 = .ok b₁ := (readUint8T_append v (by omega)).trans hb₁
  unfold basicHeader
  simp only [hb, hb', hb₁, hb₁', bind, Except.bind, pure, Except.pure]
  by_cases h0 : b.toNat &&& 0x3F = 0
  · right
    refine ⟨⟨RtmpFmt.ofCode (b.toNat >>> 6 &&& 3), UInt32.ofNat (64 + b₁.toNat), 2⟩, h, Nat.zero_lt_two, ?_, ?_⟩
    · rw [if_pos h0, if_neg (by omega)]
    · rw [if_pos h0, if_neg (by omega)]
  · simp only [if_neg h0]
    by_cases h1 : b.toNat &&& 0x3F = 1
    · simp only [if_pos h1]
      by_cases h3 : pos.length < 3
      · exact .inl (if_pos h3)
      · obtain ⟨b₂, hb₂⟩ := readUint8T_ok pos 2 (by omega)
        have hb₂' : readUint8T (pos ++ v) 2 = .ok b₂ := (readUint8T_append v (by omega)).trans hb₂
        right
        refine ⟨⟨RtmpFmt.ofCode (b.toNat >>> 6 &&& 3),
          UInt32.ofNat (64 + b₁.toNat + b₂.toNat * 256), 3⟩, Nat.not_lt.mp h3, Nat.zero_lt_succ _, ?_, ?_⟩
        · rw [if_neg h3, hb₂]
        · rw [if_neg (by omega), hb₂']
    · simp only [if_neg h1]
      exact .inr ⟨_, Nat.le_of_lt h, Nat.zero_lt_one, rfl, rfl⟩

theorem sizeTest_iff {n k : Nat} (fmt : RtmpFmt) (hk : k ≤ n) (hn : n < 2 ^ 31) :
    (int32 (n - k) = 0 ∨ (fmt = .fmt0 ∧ int32 (n - k) < 11) ∨ (fmt = .fmt1 ∧ int32 (n - k) < 7) ∨
      (fmt = .fmt2 ∧ int32 (n - k) < 3)) ↔ n - k < max 1 fmt.fieldBytes := by
  rw [int32_sub hk hn]
  cases fmt with
  | fmt0 => simp only [RtmpFmt.fieldBytes, true_and, reduceCtorEq, false_and, or_false]; omega
  | fmt1 => simp only [RtmpFmt.fieldBytes, true_and, reduceCtorEq, false_and, or_false, false_or]; omega
  | fmt2 => simp only [RtmpFmt.fieldBytes, true_and, reduceCtorEq, false_and, false_or]; omega
  | fmt3 => simp only [RtmpFmt.fieldBytes, reduceCtorEq, false_and, or_false]; omega

/-- What a pass does with the outcome of its stream. -/
def RtmpIn.finishPass (s : RtmpIn) (b : BasicHeader) :
    Checked StreamPass → Attempt RtmpIn Packet Fault
  | .error e => .fail e
  | .ok (.more t) => .wait (s.setStream b.csId t)
  | .ok (.chunk t parsed none) => .take (s.setStream b.csId t) (b.parsed + parsed) []
  | .ok (.chunk t parsed (some packet)) =>
      .take ((s.setStream b.csId t).messageComplete packet) (b.parsed + parsed) [packet]

theorem RtmpIn.finishPass_setStream (s : RtmpIn) (b : BasicHeader) (t : InStream)
    (pass : Checked StreamPass) :
    (s.setStream b.csId t).finishPass b pass = s.finishPass b pass := by
  cases pass with
  | error e => rfl
  | ok pass =>
      cases pass with
      | more t' => simp only [finishPass, setStream_setStream]
      | chunk t' n done => cases done <;> simp only [finishPass, setStream_setStream]

theorem parseChunk_short {s : RtmpIn} {pos : List UInt8} {b : BasicHeader}
    (hb : basicHeader pos pos.length = .ok (some b)) (hle : b.parsed ≤ pos.length)
    (hN : pos.length < 2 ^ 31) (h : pos.length - b.parsed < max 1 b.fmt.fieldBytes) :
    parseChunk s pos pos.length = .wait s := by
  unfold parseChunk
  rw [hb]
  exact if_pos ((sizeTest_iff b.fmt hle hN).mpr h)

theorem parseChunk_stream {s : RtmpIn} {pos : List UInt8} {b : BasicHeader}
    (hb : basicHeader pos pos.length = .ok (some b)) (hle : b.parsed ≤ pos.length)
    (hN : pos.length < 2 ^ 31) (h : ¬ pos.length - b.parsed < max 1 b.fmt.fieldBytes) :
    parseChunk s pos pos.length = s.finishPass b
      (parseStream (s.stream b.csId) b.fmt b.csId s.inChunkSize (pos.drop b.parsed)
        (pos.drop b.parsed).length) := by
  have hsub := uint32_sub hle (by omega)
  unfold parseChunk
  rw [hb]
  dsimp only
  rw [if_neg (mt (sizeTest_iff b.fmt hle hN).mp h), hsub, List.length_drop]
  cases parseStream (s.stream b.csId) b.fmt b.csId s.inChunkSize (pos.drop b.parsed)
      (pos.length - b.parsed) with
  | error e => rfl
  | ok pass =>
      cases pass with
      | more t => rfl
      | chunk t n done => cases done <;> rfl

/-- The outcomes of an attempt, and what each says about a longer input. -/
inductive StepResumes (s : RtmpIn) (u v : List UInt8) : Attempt RtmpIn Packet Fault → Prop
  | wait {s'} : parseStep s' (u ++ v) = parseStep s (u ++ v) → StepResumes s u v (.wait s')
  | take {s' n out} : 0 < n → n ≤ u.length → parseStep s (u ++ v) = .take s' n out →
      StepResumes s u v (.take s' n out)
  | fail {e} : parseStep s (u ++ v) = .fail e → StepResumes s u v (.fail e)

theorem parseStep_resumes {s : RtmpIn} {u v : List UInt8} (hN : (u ++ v).length < 2 ^ 31) :
    StepResumes s u v (parseStep s u) := by
  have hlen : (u ++ v).length = u.length + v.length := List.length_append
  by_cases h1 : 1 < u.length
  · have hu : parseStep s u = parseChunk s u u.length := if_pos h1
    have huv : ∀ s, parseStep s (u ++ v) = parseChunk s (u ++ v) (u ++ v).length :=
      fun s => if_pos (by omega)
    rw [hu]
    rcases basicHeader_resumes v h1 with hnone | ⟨b, hle, hpos, hb, hb'⟩
    · have hw : parseChunk s u u.length = .wait s := by unfold parseChunk; rw [hnone]
      rw [hw]
      exact .wait rfl
    · by_cases hs : u.length - b.parsed < max 1 b.fmt.fieldBytes
      · rw [parseChunk_short hb hle (by omega) hs]
        exact .wait rfl
      · have hdrop : (u ++ v).drop b.parsed = u.drop b.parsed ++ v :=
          List.drop_append_of_le_length hle
        have hlong : ∀ s, parseStep s (u ++ v) = s.finishPass b
            (parseStream (s.stream b.csId) b.fmt b.csId s.inChunkSize (u.drop b.parsed ++ v)
              (u.drop b.parsed ++ v).length) := by
          intro s
          rw [huv, parseChunk_stream hb' (by omega) hN (by omega), hdrop]
        have hsub : (u.drop b.parsed).length = u.length - b.parsed := List.length_drop
        have hrest : (u.drop b.parsed ++ v).length < 2 ^ 31 := by rw [List.length_append]; omega
        rw [parseChunk_stream hb hle (by omega) hs]
        rcases parseStream_resumes (t := s.stream b.csId) (k := s.inChunkSize) v
            (by omega : b.fmt.fieldBytes ≤ (u.drop b.parsed).length) hrest with
          ⟨t', hthis, hagain⟩ | ⟨t', n, done, hthis, hn, hnext⟩ | ⟨e, hthis, hnext⟩
        · rw [hthis]
          refine .wait ?_
          rw [hlong, hlong, RtmpIn.stream_setStream, RtmpIn.setStream_inChunkSize, hagain]
          exact RtmpIn.finishPass_setStream _ _ _ _
        · rw [hthis]
          cases done with
          | none => exact .take (by omega) (by omega) (by rw [hlong, hnext]; rfl)
          | some packet => exact .take (by omega) (by omega) (by rw [hlong, hnext]; rfl)
        · rw [hthis]
          exact .fail (by rw [hlong, hnext]; rfl)
  · have hw : parseStep s u = .wait s := if_neg h1
    rw [hw]
    exact .wait rfl

theorem parseChunk_resumable : Resumable parseStep (2 ^ 31 - 1) where
  empty_wait _ := rfl
  take_pos := by
    intro s u s' n out hN h
    have hr := parseStep_resumes (s := s) (u := u) (v := []) (by rw [List.append_nil]; omega)
    rw [h] at hr
    cases hr with
    | take hpos hle _ => exact ⟨hpos, hle⟩
  take_append := by
    intro s u v s' n out hN h
    have hr := parseStep_resumes (s := s) (u := u) (v := v) (by omega)
    rw [h] at hr
    cases hr with
    | take _ _ hnext => exact hnext
  fail_append := by
    intro s u v e hN h
    have hr := parseStep_resumes (s := s) (u := u) (v := v) (by omega)
    rw [h] at hr
    cases hr with
    | fail hnext => exact hnext
  wait_append := by
    intro s u v s' hN h
    have hr := parseStep_resumes (s := s) (u := u) (v := v) (by omega)
    rw [h] at hr
    cases hr with
    | wait hagain => exact hagain

theorem parseLoop_eq_drainFuel {s : RtmpIn} {buf : List UInt8} (fuel : Nat)
    (h : buf.length < 2 ^ 31) :
    parseLoop fuel s buf buf.length = drainFuel parseStep fuel s buf := by
  induction fuel generalizing s buf with
  | zero => rfl
  | succ fuel ih =>
      by_cases h1 : 1 < buf.length
      · have hs : parseStep s buf = parseChunk s buf buf.length := if_pos h1
        simp only [parseLoop, drainFuel, if_pos h1, hs]
        cases hc : parseChunk s buf buf.length with
        | wait s' => rfl
        | fail e => rfl
        | take s' n out =>
            have hle := (parseChunk_resumable.take_pos (by omega) (hs.trans hc)).2
            have hdrop : (buf.drop n).length = buf.length - n := List.length_drop
            dsimp only
            rw [uint32_sub hle (by omega), ← hdrop, ih (by omega)]
      · have hs : parseStep s buf = .wait s := if_neg h1
        simp only [parseLoop, drainFuel, if_neg h1, hs]

/-- In the bounded range the loop of `ParseMessage` reads what the reader reads. -/
theorem parseMessage_eq_drain (s : RtmpIn) (buf : List UInt8) (h : buf.length < 2 ^ 31) :
    parseMessage s buf = drain parseStep s buf := by
  have hlen : uint32 (buf.length : Nat) = buf.length := by
    rw [uint32_of_lt (by omega) (by omega)]
    rfl
  rw [parseMessage, hlen, parseLoop_eq_drainFuel _ h, drain]

theorem feed_parseMessage {s : RtmpIn} {u : List UInt8} {pieces : List (List UInt8)}
    (hfit : Fits parseMessage (2 ^ 31 - 1) s u pieces) :
    feed parseMessage s u pieces = feed (drain parseStep) s u pieces ∧
      Fits (drain parseStep) (2 ^ 31 - 1) s u pieces :=
  feed_congr (fun s u hN => parseMessage_eq_drain s u (by omega)) hfit

/-- Cutting a byte string into deliveries changes neither the messages completed, nor the unread
rest, nor the state left: one call on the whole string gives the same. -/
theorem parseMessage_segmentation (s : RtmpIn) (u piece : List UInt8) (pieces : List (List UInt8))
    (hN : (u ++ (piece :: pieces).flatten).length < 2 ^ 31) :
    feed parseMessage s u (piece :: pieces) = parseMessage s (u ++ (piece :: pieces).flatten) := by
  have hfit : Fits (drain parseStep) (2 ^ 31 - 1) s u (piece :: pieces) :=
    fits_of_length parseChunk_resumable (by omega)
  have hread := feed_congr (fun s u hN => (parseMessage_eq_drain s u (by omega)).symm) hfit
  rw [← hread.1, feed_eq_drain parseChunk_resumable (List.cons_ne_nil _ _) (by omega),
    parseMessage_eq_drain s _ hN]

/-- A whole audio message of one byte on chunk stream 2. -/
def oneByteMessage : List UInt8 := [2, 0, 0, 0, 0, 0, 1, 8, 0, 0, 0, 0, 0xAA]

theorem parseMessage_segmentation_oneByteMessage :
    feed parseMessage {} [2, 0, 0] [[0, 0, 0], [1, 8, 0, 0, 0, 0, 0xAA]] = parseMessage {} oneByteMessage ∧
      (parseMessage {} oneByteMessage).out.length = 1 :=
  ⟨parseMessage_segmentation {} [2, 0, 0] [0, 0, 0] [[1, 8, 0, 0, 0, 0, 0xAA]] (by decide), by decide⟩

/-- With more than `2 ^ 31` unread bytes the signed length is negative, and a call on a full header
gives up at once. -/
theorem parseMessage_gives_up (s : RtmpIn) (rest : List UInt8) (hlo : 2 ^ 31 ≤ rest.length)
    (hhi : rest.length + 1 < 2 ^ 32) : (parseMessage s (2 :: rest)).out = [] := by
  have htotal : uint32 ((2 :: rest : List UInt8).length : Nat) = rest.length + 1 := by
    rw [List.length_cons, uint32_of_lt (by omega) (by omega)]
    omega
  have hsize : int32 ((rest.length + 1 : Nat) - (1 : Nat)) < 0 := by
    unfold int32
    rw [Int.bmod_def]
    split <;> omega
  have hb : basicHeader (2 :: rest) (rest.length + 1) = .ok (some ⟨.fmt0, 2, 1⟩) := by
    have hread : readUint8T (2 :: rest) 0 = .ok 2 := readUint8T_append (p := [2]) rest (by decide)
    unfold basicHeader
    rw [hread]
    rfl
  have hstep : parseChunk s (2 :: rest) (rest.length + 1) = .wait s := by
    unfold parseChunk
    rw [hb]
    exact if_pos (.inr (.inl ⟨rfl, Int.lt_trans hsize (by decide)⟩))
  rw [parseMessage, htotal, parseLoop, if_pos (by omega), hstep]

theorem parseMessage_segmentation_unbounded :
    feed parseMessage {} [] [oneByteMessage, List.replicate (2 ^ 31) 0] ≠
      parseMessage {} ([] ++ [oneByteMessage, List.replicate (2 ^ 31) 0].flatten) := by
  intro heq
  have hcut : (parseMessage {} ([] ++ oneByteMessage)).out <+:
      (feed parseMessage {} [] [oneByteMessage, List.replicate (2 ^ 31) 0]).out :=
    out_prefix_andThen _ _
  have hrest : (List.replicate (2 ^ 31) (0 : UInt8)).length = 2 ^ 31 := List.length_replicate
  have hlen : (oneByteMessage.tail ++ List.replicate (2 ^ 31) 0).length = 12 + 2 ^ 31 := by
    rw [List.length_append, hrest]
    rfl
  have hwhole := parseMessage_gives_up {} (oneByteMessage.tail ++ List.replicate (2 ^ 31) 0) (by omega) (by omega)
  have hflat : [oneByteMessage, List.replicate (2 ^ 31) 0].flatten =
      2 :: (oneByteMessage.tail ++ List.replicate (2 ^ 31) 0) := by
    rw [List.flatten_cons, List.flatten_cons, List.flatten_nil, List.append_nil]
    exact List.cons_append
  rw [heq, hflat, List.nil_append, List.nil_append, hwhole] at hcut
  have hone : (parseMessage {} oneByteMessage).out.length = 1 := by decide
  rw [List.prefix_nil.mp hcut] at hone
  exact absurd hone (by decide)

end TmmsServer
