import TmmsServer.Rtmp.ChunkRoundTrip

/-!
# Extended timestamps

The sender copies the four bytes of a timestamp in host order, the receiver reads
them in network order, does not use them after a full header and adds them again
with every continuation chunk. Which messages keep their timestamp is `Survives`.
-/
namespace TmmsServer
open Lib.Words Lib.Feed

/-- Every message of a run meets `P`, a condition on the sender's history of its chunk stream and on
whether the last message there was written with an extended timestamp. -/
def EachMessage (P : OutStream → Bool → RtmpMsgHeader → UInt32 → Bool → Prop) :
    Sender → (UInt32 → Bool) → List SendOp → Prop
  | _, _, [] => True
  | s, ext, .reset :: ops => ∀ s', s.step .reset = .ok s' → EachMessage P s' ext ops
  | s, ext, .build shared packet timestamp fmt0 :: ops => ∀ header, packet.ext = some header →
      P (s.out.stream header.csId) (ext header.csId) header timestamp fmt0 ∧
        ∀ s', s.step (.build shared packet timestamp fmt0) = .ok s' →
          EachMessage P s' (Function.update ext header.csId
            ((s.out.stream header.csId).choose header timestamp fmt0).long) ops

/-- The receiver expects an extended timestamp that the sender did not write. -/
def Desynced (o : OutStream) (ext : Bool) (header : RtmpMsgHeader) (timestamp : UInt32)
    (fmt0 : Bool) : Prop :=
  let c := o.choose header timestamp fmt0
  c.long = false ∧ c.fmt = .fmt3 ∧ ext = true

/-- All messages of the run are ones the chunk format can express. -/
def AllSendable (ops : List SendOp) : Prop :=
  ∀ shared packet timestamp fmt0, SendOp.build shared packet timestamp fmt0 ∈ ops →
    ∃ header, Sendable packet header

/-- Whatever way the bytes sent are cut, the receiver completes the messages of the run as they were sent. -/
def Delivered (ops : List SendOp) : Prop :=
  ∃ s wire, Sender.run {} ops = .ok s ∧ s.wire = .ok wire ∧
    ∀ pieces, pieces.flatten = wire → Fits parseMessage (2 ^ 31 - 1) { inChunkSize := 4096 } [] pieces →
      (feed parseMessage { inChunkSize := 4096 } [] pieces).out = ops.filterMap SendOp.delivered

theorem Sender.run_append (s : Sender) (ops ops' : List SendOp) :
    s.run (ops ++ ops') = s.run ops >>= fun s => s.run ops' := by
  induction ops generalizing s with
  | nil => rw [Sender.run, ok_bind, List.nil_append]
  | cons op ops ih =>
      rw [List.cons_append, Sender.run, Sender.run]
      cases s.step op with
      | error e => rw [error_bind, error_bind, error_bind]
      | ok s' => rw [ok_bind, ok_bind, ih]

theorem delivered_build {packet : Packet} {header : RtmpMsgHeader} (shared : Bool)
    (timestamp : UInt32) (fmt0 : Bool) (hs : Sendable packet header) :
    SendOp.delivered (.build shared packet timestamp fmt0) =
      some (.received { header with timestamp } packet.data) := by
  change packet.ext.map _ = _
  rw [hs.ext]
  rfl

theorem AllSendable.tail {op : SendOp} {ops : List SendOp} (h : AllSendable (op :: ops)) :
    AllSendable ops :=
  fun _ _ _ _ hmem => h _ _ _ _ (List.mem_cons_of_mem _ hmem)

/-- Survivors only: after every part of the run sender and receiver are in step. -/
theorem run_survives {ops : List SendOp} {s : Sender} {ext : UInt32 → Bool} {r : RtmpIn}
    {out : List Packet}
    (hsend : AllSendable ops) (hfit : HeadersFit s ops) (hsurv : EachMessage Survives s ext ops)
    (h : InStep s ext r out) (n : Nat) :
    ∃ s' ext' r', s.run (ops.take n) = .ok s' ∧
      InStep s' ext' r' (out ++ (ops.take n).filterMap SendOp.delivered) := by
  induction ops generalizing s ext r out n with
  | nil => exact ⟨s, ext, r, by rw [List.take_nil]; rfl, by simpa using h⟩
  | cons op ops ih =>
      cases n with
      | zero => exact ⟨s, ext, r, rfl, by simpa using h⟩
      | succ n =>
          cases op with
          | reset =>
              obtain ⟨s₁, hs₁, h₁⟩ := h.reset
              obtain ⟨s₂, ext₂, r₂, hs₂, h₂⟩ := ih hsend.tail (hfit.2 s₁ hs₁) (hsurv s₁ hs₁) h₁ n
              exact ⟨s₂, ext₂, r₂, by rw [List.take_succ_cons, Sender.run, hs₁, ok_bind, hs₂], h₂⟩
          | build shared packet timestamp fmt0 =>
              obtain ⟨header, hs⟩ := hsend shared packet timestamp fmt0 List.mem_cons_self
              obtain ⟨hthis, hrest⟩ := hsurv header hs.ext
              obtain ⟨s₁, r₁, hs₁, h₁⟩ := h.build shared hs (hfit.1 header hs.ext) hthis
              obtain ⟨s₂, ext₂, r₂, hs₂, h₂⟩ := ih hsend.tail (hfit.2 s₁ hs₁) (hrest s₁ hs₁) h₁ n
              refine ⟨s₂, ext₂, r₂, by rw [List.take_succ_cons, Sender.run, hs₁, ok_bind, hs₂], ?_⟩
              rw [List.take_succ_cons,
                List.filterMap_cons_some (delivered_build shared timestamp fmt0 hs)]
              rw [List.append_assoc] at h₂
              exact h₂

theorem InStep.delivered {ops : List SendOp} {s : Sender} {ext : UInt32 → Bool} {r : RtmpIn}
    (hrun : Sender.run {} ops = .ok s) (h : InStep s ext r (ops.filterMap SendOp.delivered)) :
    Delivered ops := by
  obtain ⟨wire, hwire, hfeed⟩ := h.delivers
  exact ⟨s, wire, hrun, hwire, fun pieces hflat hfit => by rw [hfeed pieces hflat hfit]⟩

section Lost
variable {s : Sender} {ext : UInt32 → Bool} {r : RtmpIn} {ops : List SendOp} {packet : Packet}
  {header : RtmpMsgHeader} {timestamp : UInt32} {fmt0 : Bool}

theorem not_delivered {wire : List UInt8} (pieces : List (List UInt8))
    (hrun : Sender.run {} ops = .ok s) (hwire : s.wire = .ok wire) (hflat : pieces.flatten = wire)
    (hfit : Fits (drain parseStep) (2 ^ 31 - 1) { inChunkSize := 4096 } [] pieces)
    (hne : (feed (drain parseStep) { inChunkSize := 4096 } [] pieces).out ≠ ops.filterMap SendOp.delivered) :
    ¬ Delivered ops := by
  rintro ⟨s', wire', hrun', hwire', hall⟩
  obtain rfl : s = s' := Except.ok.inj (hrun.symm.trans hrun')
  obtain rfl : wire = wire' := Except.ok.inj (hwire.symm.trans hwire')
  obtain ⟨hread, hfit'⟩ := feed_congr (fun s u hN => (parseMessage_eq_drain s u (by omega)).symm) hfit
  rw [hread] at hne
  exact hne (hall pieces hflat hfit')

theorem InStep.pieces {out : List Packet} (h : InStep s ext r out) (shared : Bool)
    (hs : Sendable packet header)
    (hroom : s.out.outCurrent + (s.out.stream header.csId).headerNeed header timestamp fmt0 ≤ 4096) :
    ∃ s' u, s.step (.build shared packet timestamp fmt0) = .ok s' ∧
      Takes parseStep (2 ^ 31 - 1) { inChunkSize := 4096 } u r out ∧
      s'.wire = .ok (u ++ (s.out.stream header.csId).encode header packet.data timestamp fmt0) := by
  have hl := hs.msgLen_lt
  obtain ⟨w, hw, ht⟩ := h.wire
  obtain ⟨out', hbuild, hgrow⟩ := RtmpOut.buildChunk_grows timestamp fmt0 hs.ext hs.msgLen (by omega) hroom
  refine ⟨{ s with out := out' }, s.sent ++ w, InStep.step_build hbuild, ht, ?_⟩
  rw [Sender.wire, RtmpOut.sendingBytes_of_lays (hgrow.lays w (RtmpOut.keep_lays packet hw)),
    List.append_assoc]
  rfl

/-- A message with an extended timestamp that does not survive is completed with another timestamp. -/
theorem misread_not_delivered (shared : Bool) (hrun : Sender.run {} ops = .ok s)
    (h : InStep s ext r (ops.filterMap SendOp.delivered)) (hs : Sendable packet header)
    (hroom : s.out.outCurrent + (s.out.stream header.csId).headerNeed header timestamp fmt0 ≤ 4096)
    (hlong : ((s.out.stream header.csId).choose header timestamp fmt0).long = true)
    (hlost : ¬ Survives (s.out.stream header.csId) (ext header.csId) header timestamp fmt0) :
    ¬ Delivered (ops ++ [.build shared packet timestamp fmt0]) := by
  obtain ⟨s', u, hstep, ht, hwire⟩ := h.pieces shared hs hroom
  have hlink := h.links header.csId
  have hext : ((s.out.stream header.csId).choose header timestamp fmt0).fmt = .fmt3 →
      ext header.csId = ((s.out.stream header.csId).choose header timestamp fmt0).long :=
    fun h3 => (hlink.ext_of_long hlong h3).trans hlong.symm
  have htakes := takes_message hs h.chunkSize hlink hext
  obtain ⟨pieces, hflat, hfit, hfeed⟩ := (ht.append htakes).pieces parseChunk_resumable
  refine not_delivered (s := s') pieces ?_ hwire hflat hfit ?_
  · rw [Sender.run_append, hrun, ok_bind, Sender.run, hstep, ok_bind, Sender.run]
  · rw [hfeed, List.filterMap_append,
      List.filterMap_cons_some (delivered_build shared timestamp fmt0 hs), List.filterMap_nil]
    intro heq
    have hpacket := List.head_eq_of_cons_eq (List.append_cancel_left heq)
    have hts := congrArg RtmpMsgHeader.timestamp (Option.some.inj (Packet.mk.inj hpacket).2.2.2.2.2)
    dsimp only at hts
    refine hlost ?_
    unfold Survives
    dsimp only
    rw [if_pos hlong]
    exact (arrivedTimestamp_long rfl hlong _).mp hts

theorem copyBody_short {t : InStream} {packet : Packet} {k : Int32} {p : List UInt8}
    {avail parsed n : Nat}
    (hbytes : min packet.space k.toInt = n) (hn : n < 2 ^ 31) (hp : parsed ≤ avail)
    (ha : avail < 2 ^ 31)
    (hlt : avail - parsed < n) : copyBody t header packet k p avail parsed = .ok (.more t) := by
  unfold copyBody
  dsimp only
  rw [hbytes, uint32_sub hp (by omega), uint32_of_lt (by omega) (by omega), if_pos]
  rw [Int.toNat_natCast]
  exact hlt

/-- After a desynced chunk the receiver waits for four bytes that do not come. -/
theorem desynced_waits {o : OutStream} {e : Bool} (hs : Sendable packet header)
    (hk : r.inChunkSize = 4096)
    (hlink : Linked o e (r.stream header.csId)) (h : Desynced o e header timestamp fmt0)
    (hshort : header.msgLen.toNat ≤ 4096) :
    ∃ r', parseStep r (o.encode header packet.data timestamp fmt0) = .wait r' := by
  obtain ⟨hlong, h3, rfl⟩ := h
  have hlen := hs.msgLen
  have hpos := hs.msgLen_pos
  have hl := hs.msgLen_lt
  have hne : header.msgLen ≠ 0 := fun h => by
    rw [h] at hpos
    exact Nat.lt_irrefl _ hpos
  have hfields : headerFields (o.choose header timestamp fmt0).fmt
      (timestampField (o.choose header timestamp fmt0).timestamp) header = [] := by rw [h3]; rfl
  have henc : o.encode header packet.data timestamp fmt0 =
      basicHeaderBytes .fmt3 header.csId ++ packet.data := by
    unfold OutStream.encode firstHeader
    dsimp only
    rw [chunkedBody_short (by omega), hfields, extendedTimestamp_short hlong, h3]
    simp only [List.append_nil]
  have hopen := openPacket_first r.inChunkSize (rfl : o.choose header timestamp fmt0 = _) hlink.header hlink.packet
    hne hl packet.data
  rw [hfields, h3, List.nil_append] at hopen
  have hbasic := basicHeaderBytes_small .fmt3 header.csId
  have hbpos := basicHeaderBytes_pos .fmt3 header.csId
  have hb := basicHeader_bytes .fmt3 hs.csId_lo hs.csId_hi packet.data
  have happ : (basicHeaderBytes .fmt3 header.csId ++ packet.data).length =
      (basicHeaderBytes .fmt3 header.csId).length + packet.data.length := List.length_append
  have hstream := parseChunk_stream (s := r) hb (by dsimp only; omega) (by omega) (by
    dsimp only [RtmpFmt.fieldBytes]
    omega)
  have hfmt : RtmpFmt.fmt3 = .fmt3 := rfl
  dsimp only at hstream
  rw [List.drop_left, parseStream_open hopen rfl, hlink.ext_eq,
    streamHeader_eq (messageHeader_fmt3 _ _ _ _) (Nat.zero_le _) (by omega), if_pos hfmt] at hstream
  rw [henc]
  unfold parseStep
  rw [if_pos (by omega), hstream]
  by_cases hfour : packet.data.length - 0 < 4
  · rw [extField_short _ hfour, ok_bind]
    exact ⟨_, rfl⟩
  · obtain ⟨x, hx⟩ := readUint32T_ok packet.data 0 (by omega)
    have h0 : RtmpFmt.fmt3 ≠ .fmt0 := nofun
    have hk' : r.inChunkSize.toInt = 4096 := by rw [hk]; rfl
    rw [extField_read hfour hx, if_neg h0, ok_bind]
    unfold bodyPass
    dsimp only
    rw [copyBody_short (n := header.msgLen.toNat) ?_ (by omega) (by omega) (by omega) (by omega)]
    · exact ⟨_, rfl⟩
    · have hspace : int32 ((header.msgLen.toNat : Int) - (0 : Nat)) = header.msgLen.toNat := by
        rw [int32_of_lt (by omega) (by omega)]
        omega
      change min (int32 ((header.msgLen.toNat : Int) - (0 : Nat))) _ = _
      rw [hspace, hk']
      omega

theorem desynced_not_delivered (shared : Bool) (hrun : Sender.run {} ops = .ok s)
    (h : InStep s ext r (ops.filterMap SendOp.delivered)) (hs : Sendable packet header)
    (hroom : s.out.outCurrent + (s.out.stream header.csId).headerNeed header timestamp fmt0 ≤ 4096)
    (hdes : Desynced (s.out.stream header.csId) (ext header.csId) header timestamp fmt0)
    (hshort : header.msgLen.toNat ≤ 4096) :
    ¬ Delivered (ops ++ [.build shared packet timestamp fmt0]) := by
  obtain ⟨s', u, hstep, ht, hwire⟩ := h.pieces shared hs hroom
  obtain ⟨r', hwait⟩ := desynced_waits hs h.chunkSize (h.links header.csId) hdes hshort
  have hlen := (s.out.stream header.csId).encode_length timestamp fmt0 hs.msgLen
  have hl := hs.msgLen_lt
  have hmsg := hs.msgLen
  obtain ⟨pieces, hflat, hfit, hfeed⟩ := ht.pieces parseChunk_resumable
  refine not_delivered (s := s')
    (pieces ++ [(s.out.stream header.csId).encode header packet.data timestamp fmt0]) ?_ hwire ?_ ?_ ?_
  · rw [Sender.run_append, hrun, ok_bind, Sender.run, hstep, ok_bind, Sender.run]
  · rw [List.flatten_append, hflat, List.flatten_singleton]
  · refine hfit.append fun s' u' hfin => ⟨?_, fun _ _ _ => trivial⟩
    rw [hfeed] at hfin
    obtain ⟨rfl, rfl⟩ := Prod.mk.inj (Except.ok.inj hfin)
    rw [List.nil_append]
    omega
  · rw [feed_append, hfeed, List.filterMap_append,
      List.filterMap_cons_some (delivered_build shared timestamp fmt0 hs), List.filterMap_nil]
    simp only [Reading.andThen, feed, List.nil_append, drain_wait hwait, Reading.prepend,
      List.append_nil]
    intro heq
    exact List.cons_ne_nil _ _ (List.append_cancel_left ((List.append_nil _).trans heq)).symm

/-- Each message of a run that is delivered up to it and with it survives. -/
theorem survives_of_delivered {rest : List SendOp} (hrun : Sender.run {} ops = .ok s)
    (h : InStep s ext r (ops.filterMap SendOp.delivered)) (hsend : AllSendable rest)
    (hfit : HeadersFit s rest)
    (hdel : ∀ n, Delivered (ops ++ rest.take n))
    (hshort : EachMessage (fun o e header timestamp fmt0 =>
      Desynced o e header timestamp fmt0 → header.msgLen.toNat ≤ 4096) s ext rest) :
    EachMessage Survives s ext rest := by
  induction rest generalizing s ext r ops with
  | nil => trivial
  | cons op rest ih =>
      have hnext : ∀ n, Delivered (ops ++ [op] ++ rest.take n) := fun n => by
        have hn := hdel (n + 1)
        rwa [List.take_succ_cons, List.append_cons] at hn
      have hrun' : ∀ s', s.step op = .ok s' → Sender.run {} (ops ++ [op]) = .ok s' :=
        fun s' hs' => by
        rw [Sender.run_append, hrun, ok_bind, Sender.run, hs', ok_bind, Sender.run]
      cases op with
      | reset =>
          intro s' hs'
          obtain ⟨s₁, hs₁, h₁⟩ := h.reset
          obtain rfl : s₁ = s' := Except.ok.inj (hs₁.symm.trans hs')
          have hout : (ops ++ [SendOp.reset]).filterMap SendOp.delivered =
              ops.filterMap SendOp.delivered := by
            rw [List.filterMap_append]
            exact List.append_nil _
          exact ih (hrun' _ hs₁) (by rwa [hout]) hsend.tail (hfit.2 _ hs₁) hnext (hshort _ hs₁)
      | build shared packet timestamp fmt0 =>
          intro header hx
          obtain ⟨header', hs⟩ := hsend shared packet timestamp fmt0 List.mem_cons_self
          obtain rfl : header = header' := Option.some.inj (hx.symm.trans hs.ext)
          have hroom := hfit.1 header hx
          obtain ⟨hthis, hlater⟩ := hshort header hx
          have hsurv : Survives (s.out.stream header.csId) (ext header.csId) header timestamp fmt0 := by
            by_contra hlost
            have hone := hdel 1
            cases hlong : ((s.out.stream header.csId).choose header timestamp fmt0).long with
            | true => exact misread_not_delivered shared hrun h hs hroom hlong hlost hone
            | false =>
                have hdes : Desynced (s.out.stream header.csId) (ext header.csId) header timestamp fmt0 := by
                  unfold Survives at hlost
                  dsimp only at hlost
                  rw [if_neg (by rw [hlong]; exact Bool.false_ne_true)] at hlost
                  exact ⟨hlong, not_not.mp hlost⟩
                exact desynced_not_delivered shared hrun h hs hroom hdes (hthis hdes) hone
          obtain ⟨s₁, r₁, hs₁, h₁⟩ := h.build shared hs hroom hsurv
          refine ⟨hsurv, fun s' hs' => ?_⟩
          obtain rfl : s₁ = s' := Except.ok.inj (hs₁.symm.trans hs')
          have hout : (ops ++ [SendOp.build shared packet timestamp fmt0]).filterMap SendOp.delivered =
              ops.filterMap SendOp.delivered ++ [.received { header with timestamp } packet.data] := by
            rw [List.filterMap_append,
              List.filterMap_cons_some (delivered_build shared timestamp fmt0 hs),
              List.filterMap_nil]
          exact ih (hrun' _ hs₁) (by rwa [hout]) hsend.tail (hfit.2 _ hs₁) hnext (hlater _ hs₁)

end Lost

/-- The runs all of whose messages survive are delivered, up to every point of the run. Conversely a
run delivered up to every point consists of survivors, if none of its messages of more than one
chunk goes out in format 3 right behind one with an extended timestamp. -/
theorem extendedTimestamp_delivered (ops : List SendOp) (hsend : AllSendable ops)
    (hfit : HeadersFit {} ops) :
    (EachMessage Survives {} (fun _ => false) ops → ∀ n, Delivered (ops.take n)) ∧
      (EachMessage (fun o ext header timestamp fmt0 =>
          Desynced o ext header timestamp fmt0 → header.msgLen.toNat ≤ 4096) {} (fun _ => false) ops →
        (∀ n, Delivered (ops.take n)) → EachMessage Survives {} (fun _ => false) ops) := by
  constructor
  · intro hsurv n
    obtain ⟨s, ext, r, hrun, h⟩ := run_survives hsend hfit hsurv InStep.init n
    exact h.delivered hrun
  · intro hshort hdel
    exact survives_of_delivered (rfl : Sender.run {} [] = .ok {}) InStep.init hsend hfit hdel hshort

/-- The smallest extended timestamp comes through a single full header: it equals the filled field. -/
theorem extendedTimestamp_delivered_smallest :
    Delivered [SendOp.build true audioPacket 0xFFFFFF false] := by
  have hsend : AllSendable [.build true audioPacket 0xFFFFFF false] := by
    intro shared packet timestamp fmt0 hmem
    obtain ⟨rfl, rfl, rfl, rfl⟩ := SendOp.build.inj (List.mem_singleton.mp hmem)
    exact ⟨audioHeader, audioPacket_sendable⟩
  have hfit : HeadersFit {} [.build true audioPacket 0xFFFFFF false] := by
    refine ⟨?_, fun _ _ => trivial⟩
    rintro header ⟨rfl⟩
    decide
  have hsurv : EachMessage Survives {} (fun _ => false) [.build true audioPacket 0xFFFFFF false] := by
    rintro header ⟨rfl⟩
    exact ⟨by unfold Survives; decide, fun _ _ => trivial⟩
  exact (extendedTimestamp_delivered _ hsend hfit).1 hsurv 1

/-- The next ones do not: the receiver does not use the four bytes. -/
theorem extendedTimestamp_misread : ¬ Delivered [.build true audioPacket 0x1000000 false] :=
  misread_not_delivered true (rfl : Sender.run {} [] = .ok {}) InStep.init audioPacket_sendable (by decide) (by decide)
    (by unfold Survives; decide)

end TmmsServer
