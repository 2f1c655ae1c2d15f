import TmmsServer.Rtmp.ParserBounds

/-!
# The peer cannot stop the parser

With a chunk size of at least one no size goes below zero, and a chunk that has
begun is taken once the rest of it is there.
-/
namespace TmmsServer
open Lib.Words Lib.Feed BytesReader

namespace LoopHead
variable {h : LoopHead} {b : BasicHeader}

/-- The size passed to `Packet::NewPacket`, where there is no packet yet. -/
def newPacketSize (h : LoopHead) (b : BasicHeader) : Option Int :=
  match (h.stream b).packet with
  | some _ => none
  | none => some (int32 (chunkLength (h.stream b) b.fmt h.context.inChunkSize (h.fields b)).toNat)

/-- `packet->Space()` of the open packet or the new one. -/
def room (h : LoopHead) (b : BasicHeader) : Int :=
  match (h.stream b).packet with
  | some packet => packet.space
  | none => int32 (chunkLength (h.stream b) b.fmt h.context.inChunkSize (h.fields b)).toNat

/-- `bytes` in `ParseMessage`. -/
def bodyLength (h : LoopHead) (b : BasicHeader) : Int := min (h.room b) h.context.inChunkSize.toInt

/-- `ext` in `ParseMessage`. -/
def extended (h : LoopHead) (b : BasicHeader) : Bool :=
  if b.fmt = .fmt3 then (h.stream b).ext else (readUint24T (h.fields b) 0).toOption == some 0xFFFFFF

/-- The bytes of the message header and the extended timestamp. -/
def headerBytes (h : LoopHead) (b : BasicHeader) : Nat :=
  b.fmt.fieldBytes + if h.extended b then 4 else 0

/-- A Set Chunk Size message the pass completes has a value of at least one as a signed number. -/
def Tame (h : LoopHead) : Prop := ∀ s n out, h.attempt = .take s n out → ∀ packet ∈ out,
  packet.type = kRtmpMsgTypeChunkSize.toNat → 4 ≤ packet.packetSize →
    1 ≤ (UInt32.ofNat (beValue (packet.data.take 4))).toInt32.toInt

theorem Pass.room {packet : Packet} {header : RtmpMsgHeader} (hp : h.Pass b packet header) :
    packet.space = h.room b ∧ ∀ size, h.newPacketSize b = some size → packet.capacity = size := by
  have hlength := (openPacket_length hp.opened).2
  unfold LoopHead.room newPacketSize
  cases hpacket : (h.stream b).packet with
  | some open' =>
      rw [hpacket] at hlength
      obtain rfl : packet = open' := hlength
      exact ⟨rfl, nofun⟩
  | none =>
      rw [hpacket] at hlength
      obtain ⟨hnew, hpacket'⟩ := hlength
      have hsmall : packet.capacity < 2 ^ 31 := (newPacket_bounded hnew).small
      have hcapacity : (packet.capacity : Int) =
          int32 (chunkLength (h.stream b) b.fmt h.context.inChunkSize (h.fields b)).toNat :=
        @newPacket_size _ { capacity := packet.capacity } hnew
      have hdata : packet.data = [] := congrArg Packet.data hpacket'
      dsimp only
      refine ⟨?_, ?_⟩
      · unfold Packet.space
        rw [← hcapacity, hdata, List.length_nil, Nat.cast_zero, Int.sub_zero]
        exact int32_of_lt (by omega) (by omega)
      · intro size hsize
        rw [hcapacity]
        exact Option.some.inj hsize

theorem sizes_nonneg (hs : h.context.Sound) (hk : 1 ≤ h.context.inChunkSize.toInt)
    (b : BasicHeader) :
    (∀ size, h.newPacketSize b = some size → 0 ≤ size) ∧ 0 ≤ h.bodyLength b := by
  have hlength : ¬ int32 (chunkLength (h.stream b) b.fmt h.context.inChunkSize (h.fields b)).toNat < 0 := by
    intro hneg
    have hk' := ((chunkLength_negative h.context.inChunkSize (hs b.csId).length).mp hneg).2.2
    omega
  have hroom : 0 ≤ h.room b := by
    unfold LoopHead.room
    cases hpacket : (h.stream b).packet with
    | some packet =>
        have hopen := (hs b.csId).packet packet hpacket
        have hfits := hopen.fits
        have hsmall := hopen.small
        dsimp only
        unfold Packet.space
        rw [int32_of_lt (by omega) (by omega)]
        omega
    | none => exact Int.not_lt.mp hlength
  refine ⟨?_, ?_⟩
  · intro size hsize
    unfold newPacketSize at hsize
    cases hpacket : (h.stream b).packet with
    | some packet =>
        rw [hpacket] at hsize
        exact absurd hsize nofun
    | none =>
        rw [hpacket] at hsize
        rw [← Option.some.inj hsize]
        exact Int.not_lt.mp hlength
  · unfold bodyLength
    omega

variable {s : RtmpIn} {n : Nat} {out : List Packet}

theorem wait_inChunkSize (hw : h.attempt = .wait s) : s.inChunkSize = h.context.inChunkSize := by
  rcases attempt_wait hw with rfl | ⟨b, packet, header, t, -, -, rfl⟩
  · rfl
  · rfl

theorem Tame.take_inChunkSize (htame : h.Tame) (ht : h.attempt = .take s n out)
    (hk : 1 ≤ h.context.inChunkSize.toInt) : 1 ≤ s.inChunkSize.toInt := by
  have hvalue := htame s n out ht
  obtain ⟨b, packet, header, t, parsed, done, -, -, -, rfl, rfl⟩ := attempt_take ht
  cases done with
  | none => exact hk
  | some done =>
      have hdone := hvalue done (Option.mem_toList.mpr rfl)
      change 1 ≤ ((h.context.setStream b.csId t).messageComplete done).inChunkSize.toInt
      unfold RtmpIn.messageComplete RtmpIn.handleChunkSize
      split
      next htype =>
        split
        next hsize => exact hdone htype hsize
        next => exact hk
      next => exact hk

end LoopHead

/-! ## A chunk with all its bytes -/

section Stream
variable {t : InStream} {fmt : RtmpFmt} {csid : UInt32} {k : Int32} {p : List UInt8} {avail : Nat}

theorem messageHeader_reads (prev header : RtmpMsgHeader) (delta : UInt32)
    (hp : fmt.fieldBytes ≤ p.length) :
    ∃ m, messageHeader fmt prev header delta p = .ok m ∧ m.parsed = fmt.fieldBytes ∧
      (fmt ≠ .fmt3 → readUint24T p 0 = .ok m.ts) := by
  by_cases hfmt : fmt = .fmt3
  · subst hfmt
    exact ⟨_, messageHeader_fmt3 prev header delta p, rfl, fun h => absurd rfl h⟩
  · obtain ⟨ts, filled, δ, -, hm⟩ := messageHeader_fields prev hfmt hp header.csId
    have hm := hm [] header delta rfl
    rw [List.append_nil] at hm
    refine ⟨_, hm, rfl, fun _ => ?_⟩
    cases fmt with
    | fmt0 =>
        obtain ⟨ts', hts, hm⟩ := of_bind_ok hm
        obtain ⟨msgLen, -, hm⟩ := of_bind_ok hm
        obtain ⟨msgType, -, hm⟩ := of_bind_ok hm
        obtain ⟨msgSid, -, hm⟩ := of_bind_ok hm
        rw [hts, ← congrArg MessageHeader.ts (Except.ok.inj hm)]
    | fmt1 =>
        obtain ⟨ts', hts, hm⟩ := of_bind_ok hm
        obtain ⟨msgLen, -, hm⟩ := of_bind_ok hm
        obtain ⟨msgType, -, hm⟩ := of_bind_ok hm
        rw [hts, ← congrArg MessageHeader.ts (Except.ok.inj hm)]
    | fmt2 =>
        obtain ⟨ts', hts, hm⟩ := of_bind_ok hm
        rw [hts, ← congrArg MessageHeader.ts (Except.ok.inj hm)]
    | fmt3 => exact absurd rfl hfmt

theorem streamHeader_behind (prev header : RtmpMsgHeader) (delta : UInt32) (ext : Bool) {e : Bool}
    (he : (if fmt = .fmt3 then ext else (readUint24T p 0).toOption == some 0xFFFFFF) = e)
    (hsize : fmt.fieldBytes + (if e then 4 else 0) ≤ avail) (havail : avail ≤ p.length)
    (hlt : avail < 2 ^ 32) :
    ∃ filled δ, streamHeader fmt prev header delta ext p avail =
      .ok (.ready filled δ e (fmt.fieldBytes + if e then 4 else 0)) := by
  obtain ⟨m, hm, hparsed, hts⟩ := @messageHeader_reads fmt p prev header delta (by omega)
  have hflag : (if fmt = .fmt3 then ext else m.ts == 0xFFFFFF) = e := by
    rw [← he]
    by_cases hfmt : fmt = .fmt3
    · rw [if_pos hfmt, if_pos hfmt]
    · rw [if_neg hfmt, if_neg hfmt, hts hfmt]
      rfl
  unfold streamHeader
  rw [hm, ok_bind]
  dsimp only
  rw [hflag, hparsed]
  cases e with
  | false => exact ⟨_, _, rfl⟩
  | true =>
      rw [if_pos rfl] at hsize ⊢
      obtain ⟨ts, hread⟩ := readUint32T_ok p fmt.fieldBytes (by omega)
      rw [if_pos rfl, uint32_sub (by omega) hlt, if_neg (by omega), hread, ok_bind]
      by_cases h0 : fmt = .fmt0
      · rw [if_pos h0]
        exact ⟨_, _, rfl⟩
      · rw [if_neg h0]
        exact ⟨_, _, rfl⟩

theorem bodyPass_stores (prev filled : RtmpMsgHeader) {packet : Packet} (δ : UInt32) (e : Bool)
    {parsed bytes : Nat}
    (hpacket : packet.Bounded) (hbytes : min packet.space k.toInt = bytes)
    (hsize : parsed + bytes ≤ avail)
    (havail : avail ≤ p.length) (hlt : avail < 2 ^ 32) :
    ∃ t' done, bodyPass prev packet k p avail (.ready filled δ e parsed) =
      .ok (.chunk t' (parsed + bytes) done) := by
  have hspace : (packet.setExt filled).space = packet.space := rfl
  have hbody : ((p.drop parsed).take bytes).length = bytes := by
    rw [List.length_take, List.length_drop]
    omega
  have hfits : (((p.drop parsed).take bytes).length : Int) ≤ (packet.setExt filled).space := by
    rw [hbody, hspace]
    omega
  obtain ⟨r, hr, -⟩ := @storeBody_inside ⟨some prev, some (packet.setExt filled), δ, e⟩ filled
    (packet.setExt filled) _ parsed (hpacket.setExt filled) hfits
  unfold bodyPass copyBody
  dsimp only
  rw [hspace, hbytes, uint32_sub (by omega) hlt, uint32_of_lt (by omega) (by omega),
    if_neg (by omega), if_neg (by omega), Int.toNat_natCast, readBytes_of_le (by omega), ok_bind,
    hr]
  cases r with
  | more t' => exact absurd hr (storeBody_not_more t')
  | chunk t' n done =>
      rw [storeBody_parsed hr, hbody]
      exact ⟨t', done, rfl⟩

end Stream

namespace LoopHead
variable {h : LoopHead} {b : BasicHeader}

theorem opens (hs : h.context.Sound) (hk : 1 ≤ h.context.inChunkSize.toInt) (hb : h.chunk = some b)
    (hp : b.fmt.fieldBytes ≤ (h.fields b).length) : ∃ packet header, h.Pass b packet header := by
  have hopened := @openPacket_cases (h.stream b) b.fmt b.csId h.context.inChunkSize (h.fields b) hp
  have hsizes := (sizes_nonneg hs hk b).1
  suffices hok : ∃ packet noted, openPacket (h.stream b) b.fmt b.csId h.context.inChunkSize (h.fields b) =
      .ok (h.prev b, packet) ∧ packet.ext = some noted by
    obtain ⟨packet, noted, hopen, hext⟩ := hok
    exact ⟨packet, { noted with msgLen := (declaredLength b.fmt (h.fields b)).getD (h.prev b).msgLen },
      hb, hopen, ⟨noted, hext, rfl⟩, rfl⟩
  unfold newPacketSize at hsizes
  cases hpacket : (h.stream b).packet with
  | some packet =>
      rw [hpacket] at hopened
      obtain ⟨noted, hext, -⟩ := ((hs b.csId).packet packet hpacket).ext
      exact ⟨packet, noted, hopened, hext⟩
  | none =>
      rw [hpacket] at hopened hsizes
      have hnew : ∀ n : Int, 0 ≤ n → Packet.newPacket n = .ok { capacity := n.toNat } :=
        fun n hn => if_neg (Int.not_lt.mpr hn)
      dsimp only at hopened
      rw [hnew _ (hsizes _ rfl), ok_bind] at hopened
      exact ⟨_, _, hopened, rfl⟩

theorem takes_chunk (hs : h.context.Sound) (hk : 1 ≤ h.context.inChunkSize.toInt)
    (hb : h.chunk = some b)
    {bytes : Nat} (hbytes : h.bodyLength b = bytes)
    (hsize : b.parsed + h.headerBytes b + bytes ≤ h.totalBytes)
    (htotal : h.totalBytes ≤ h.unread.length) (hlt : h.totalBytes < 2 ^ 32) :
    ∃ s out, h.attempt = .take s (b.parsed + (h.headerBytes b + bytes)) out := by
  have hlen : (h.fields b).length = h.unread.length - b.parsed := List.length_drop
  have hheader : h.headerBytes b = b.fmt.fieldBytes + if h.extended b then 4 else 0 := rfl
  obtain ⟨packet, header, hpass⟩ := opens hs hk hb (by omega)
  have hopen := (hpass.open hs).1
  obtain ⟨noted, hext, -⟩ := hopen.ext
  obtain ⟨filled, δ, hready⟩ := @streamHeader_behind b.fmt (h.fields b) (h.totalBytes - b.parsed) (h.prev b) noted
    (h.stream b).delta (h.stream b).ext (h.extended b) rfl (by omega) (by omega) (by omega)
  have hbody : min packet.space h.context.inChunkSize.toInt = bytes := by
    rw [hpass.room.1]
    exact hbytes
  obtain ⟨t', done, hstored⟩ := @bodyPass_stores h.context.inChunkSize (h.fields b) (h.totalBytes - b.parsed)
    (h.prev b) filled packet δ (h.extended b) (h.headerBytes b) bytes hopen.toBounded hbody (by omega) (by omega)
    (by omega)
  have hcases := h.attempt_cases
  rw [hb] at hcases
  dsimp only at hcases
  rw [hcases, uint32_sub (by omega) hlt, parseStream_open hpass.opened hext, hready, ok_bind,
    ← hheader, hstored]
  cases done with
  | none => exact ⟨_, _, rfl⟩
  | some done => exact ⟨_, _, rfl⟩

end LoopHead

/-! ## The chunk in front -/

section Agree
variable {u w : List UInt8} {k : Nat} {b : BasicHeader}

theorem readUint8T_agree {i : Nat} (h : w.take k = u.take k) (hw : k ≤ w.length) (hu : k ≤ u.length)
    (hi : i + 1 ≤ k) : readUint8T w i = readUint8T u i := by
  have hreads : ∀ l : List UInt8, k ≤ l.length → readUint8T l i = readUint8T (l.take k) i := by
    intro l hl
    have htake : (l.take k).length = k := by
      rw [List.length_take]
      omega
    conv_lhs => rw [← List.take_append_drop k l]
    exact readUint8T_append _ (by omega)
  rw [hreads w hw, hreads u hu, h]

theorem basicHeader_full {n : Nat} (hu : 3 ≤ u.length) (hn : 3 ≤ n) :
    ∃ b, basicHeader u n = .ok (some b) ∧ b.parsed ≤ 3 := by
  obtain ⟨b₀, h₀⟩ := readUint8T_ok u 0 (by omega)
  obtain ⟨b₁, h₁⟩ := readUint8T_ok u 1 (by omega)
  obtain ⟨b₂, h₂⟩ := readUint8T_ok u 2 (by omega)
  unfold basicHeader
  rw [h₀, ok_bind]
  dsimp only
  split
  · rw [if_neg (by omega), h₁]
    exact ⟨_, rfl, (by decide : 2 ≤ 3)⟩
  · split
    · rw [if_neg (by omega), h₁, ok_bind, h₂]
      exact ⟨_, rfl, Nat.le_refl 3⟩
    · exact ⟨_, rfl, (by decide : 1 ≤ 3)⟩

/-- A basic header is found again wherever its own bytes are. -/
theorem basicHeader_agree {n n' : Nat} (hb : basicHeader u n = .ok (some b))
    (h : w.take b.parsed = u.take b.parsed)
    (hw : b.parsed ≤ w.length) (hu : b.parsed ≤ u.length) (hn : b.parsed ≤ n') :
    basicHeader w n' = .ok (some b) := by
  have hread : ∀ i, i + 1 ≤ b.parsed → readUint8T w i = readUint8T u i :=
    fun i hi => readUint8T_agree h hw hu hi
  unfold basicHeader at hb ⊢
  obtain ⟨b₀, h₀, hb⟩ := of_bind_ok hb
  dsimp only at hb
  split at hb
  next hc0 =>
    split at hb
    · exact absurd (Except.ok.inj hb) nofun
    · obtain ⟨b₁, h₁, hb⟩ := of_bind_ok hb
      obtain rfl := Option.some.inj (Except.ok.inj hb)
      have h₀' := (hread 0 (by decide : 0 + 1 ≤ 2)).trans h₀
      have h₁' := (hread 1 (by decide : 1 + 1 ≤ 2)).trans h₁
      rw [h₀', ok_bind]
      dsimp only at hn ⊢
      rw [if_pos hc0, if_neg (by omega), h₁']
      rfl
  next hc0 =>
    split at hb
    next hc1 =>
      split at hb
      · exact absurd (Except.ok.inj hb) nofun
      · obtain ⟨b₁, h₁, hb⟩ := of_bind_ok hb
        obtain ⟨b₂, h₂, hb⟩ := of_bind_ok hb
        obtain rfl := Option.some.inj (Except.ok.inj hb)
        have h₀' := (hread 0 (by decide : 0 + 1 ≤ 3)).trans h₀
        have h₁' := (hread 1 (by decide : 1 + 1 ≤ 3)).trans h₁
        have h₂' := (hread 2 (by decide : 2 + 1 ≤ 3)).trans h₂
        rw [h₀', ok_bind]
        dsimp only at hn ⊢
        rw [if_neg hc0, if_pos hc1, if_neg (by omega), h₁', ok_bind, h₂']
        rfl
    next hc1 =>
      obtain rfl := Option.some.inj (Except.ok.inj hb)
      have h₀' := (hread 0 (by decide : 0 + 1 ≤ 1)).trans h₀
      rw [h₀', ok_bind]
      dsimp only
      rw [if_neg hc0, if_neg hc1]
      rfl

theorem declaredLength_append {fmt : RtmpFmt} {p : List UInt8} (v : List UInt8)
    (hp : fmt.fieldBytes ≤ p.length) : declaredLength fmt (p ++ v) = declaredLength fmt p := by
  unfold declaredLength
  cases fmt with
  | fmt0 => rw [readUint24T_append v (Nat.le_trans (by decide) hp)]
  | fmt1 => rw [readUint24T_append v (Nat.le_trans (by decide) hp)]
  | fmt2 => rfl
  | fmt3 => rfl

theorem padded_take {m m' : Nat} (hm : k ≤ u.length + m) (hm' : k ≤ u.length + m') :
    (u ++ List.replicate m 0).take k = (u ++ List.replicate m' 0).take k := by
  have hmin : min (k - u.length) m = min (k - u.length) m' := by omega
  rw [List.take_append, List.take_append, List.take_replicate, List.take_replicate, hmin]

end Agree

namespace LoopHead
variable {g h : LoopHead} {b : BasicHeader}

/-- The sizes of a chunk depend on the bytes of its header. -/
theorem sizes_agree (hcontext : g.context = h.context)
    (htake : g.unread.take (b.parsed + b.fmt.fieldBytes) = h.unread.take (b.parsed + b.fmt.fieldBytes))
    (hg : b.parsed + b.fmt.fieldBytes ≤ g.unread.length)
    (hh : b.parsed + b.fmt.fieldBytes ≤ h.unread.length) :
    g.headerBytes b = h.headerBytes b ∧ g.bodyLength b = h.bodyLength b := by
  have hfields : (g.fields b).take b.fmt.fieldBytes = (h.fields b).take b.fmt.fieldBytes := by
    have hdrop := congrArg (List.drop b.parsed) htake
    rwa [List.drop_take, List.drop_take, Nat.add_sub_cancel_left] at hdrop
  have hlen : ∀ l : LoopHead, b.parsed + b.fmt.fieldBytes ≤ l.unread.length →
      ((l.fields b).take b.fmt.fieldBytes).length = b.fmt.fieldBytes := by
    intro l hl
    have hdrop : (l.fields b).length = l.unread.length - b.parsed := List.length_drop
    rw [List.length_take]
    omega
  have hdeclared : ∀ l : LoopHead, b.parsed + b.fmt.fieldBytes ≤ l.unread.length →
      declaredLength b.fmt (l.fields b) = declaredLength b.fmt ((l.fields b).take b.fmt.fieldBytes) := by
    intro l hl
    conv_lhs => rw [← List.take_append_drop b.fmt.fieldBytes (l.fields b)]
    exact declaredLength_append _ (by rw [hlen l hl])
  have hts : ∀ l : LoopHead, b.fmt ≠ .fmt3 → b.parsed + b.fmt.fieldBytes ≤ l.unread.length →
      readUint24T (l.fields b) 0 = readUint24T ((l.fields b).take b.fmt.fieldBytes) 0 := by
    intro l hfmt hl
    have hthree : 3 ≤ b.fmt.fieldBytes := by
      cases hb : b.fmt with
      | fmt0 => decide
      | fmt1 => decide
      | fmt2 => decide
      | fmt3 => exact absurd hb hfmt
    conv_lhs => rw [← List.take_append_drop b.fmt.fieldBytes (l.fields b)]
    exact readUint24T_append _ (by rw [hlen l hl]; exact hthree)
  have hstream : g.stream b = h.stream b := by
    unfold stream
    rw [hcontext]
  refine ⟨?_, ?_⟩
  · have hextended : g.extended b = h.extended b := by
      unfold extended
      by_cases hfmt : b.fmt = .fmt3
      · rw [if_pos hfmt, if_pos hfmt, hstream]
      · rw [if_neg hfmt, if_neg hfmt, hts g hfmt hg, hts h hfmt hh, hfields]
    unfold headerBytes
    rw [hextended]
  · unfold bodyLength room chunkLength
    rw [hstream, hcontext, hdeclared g hg, hdeclared h hh, hfields]

theorem chunk_of_basic (hbasic : basicHeader h.unread h.totalBytes = .ok (some b))
    (hlong : 1 < h.totalBytes)
    (hsize : ¬ (int32 (h.totalBytes - b.parsed) = 0 ∨ (b.fmt = .fmt0 ∧ int32 (h.totalBytes - b.parsed) < 11) ∨
      (b.fmt = .fmt1 ∧ int32 (h.totalBytes - b.parsed) < 7) ∨
      (b.fmt = .fmt2 ∧ int32 (h.totalBytes - b.parsed) < 3))) :
    h.chunk = some b := by
  unfold chunk
  rw [if_pos hlong, hbasic]
  exact if_neg hsize

/-- The chunk in front, where bytes of its header that are still missing are zeros. -/
def front (s : RtmpIn) (u : List UInt8) : LoopHead := ⟨s, u ++ List.replicate 18 0, 18⟩

theorem front_chunk (s : RtmpIn) (u : List UInt8) :
    ∃ b, (front s u).chunk = some b ∧ 0 < b.parsed ∧ b.parsed ≤ 3 := by
  have hlen : (front s u).unread.length = u.length + 18 := by
    change (u ++ List.replicate 18 0).length = _
    rw [List.length_append, List.length_replicate]
  obtain ⟨b, hb, hparsed⟩ := @basicHeader_full (front s u).unread 18 (by omega) (by decide)
  refine ⟨b, chunk_of_basic hb (by decide : 1 < 18) ?_, (basicHeader_inside hb).1, hparsed⟩
  have hsize : int32 (((front s u).totalBytes : Int) - b.parsed) = 18 - b.parsed :=
    int32_of_lt (by change (_ : Int) ≤ 18 - _; omega) (by change (18 : Int) - _ < _; omega)
  rw [hsize]
  omega

/-- The chunk in front is of format 3, or has fewer than `2^31` bytes behind its basic header. -/
def Roomy (s : RtmpIn) (u : List UInt8) : Prop := ∀ b, (front s u).chunk = some b → b.fmt ≠ .fmt3 →
  (front s u).headerBytes b + (front s u).bodyLength b < 2 ^ 31

theorem size_passes {fmt : RtmpFmt} {size : Nat} (hpos : 0 < size) (hlt : size < 2 ^ 32)
    (hroomy : fmt ≠ .fmt3 → fmt.fieldBytes ≤ size ∧ size < 2 ^ 31) :
    ¬ (int32 size = 0 ∨ (fmt = .fmt0 ∧ int32 size < 11) ∨ (fmt = .fmt1 ∧ int32 size < 7) ∨
      (fmt = .fmt2 ∧ int32 size < 3)) := by
  have hzero : int32 size ≠ 0 := by
    unfold int32
    rw [Int.bmod_def]
    split <;> omega
  have hsame : fmt ≠ .fmt3 → int32 size = size :=
    fun hfmt => int32_of_lt (by omega) (by have := (hroomy hfmt).2; omega)
  rintro (h0 | ⟨rfl, h⟩ | ⟨rfl, h⟩ | ⟨rfl, h⟩)
  · exact hzero h0
  · have hfields : 11 ≤ size := (hroomy nofun).1
    have hsize := hsame nofun
    omega
  · have hfields : 7 ≤ size := (hroomy nofun).1
    have hsize := hsame nofun
    omega
  · have hfields : 3 ≤ size := (hroomy nofun).1
    have hsize := hsame nofun
    omega

theorem parseMessage_takes {s s' : RtmpIn} {w : List UInt8} {n : Nat} {out : List Packet}
    (ht : (enter s w).attempt = .take s' n out) (hrest : ((enter s w).behind s' n).totalBytes ≤ 1) :
    parseMessage s w = ⟨out, .ok (s', w.drop n)⟩ := by
  have hpos : 0 < w.length := (take_progress ht).2
  obtain ⟨fuel, hfuel⟩ : ∃ fuel, w.length = fuel + 1 := ⟨w.length - 1, by omega⟩
  have hwait : ((enter s w).behind s' n).attempt = .wait s' := if_neg (by omega)
  change parseLoop (w.length + 1) (enter s w).context (enter s w).unread (enter s w).totalBytes = _
  rw [parseLoop_head, ht, hfuel]
  dsimp only
  rw [parseLoop_head, hwait]
  dsimp only [Reading.prepend]
  rw [List.append_nil]
  rfl

/-- Behind any bytes there are zeros after which their number, cut to 32 bits, is this one. -/
theorem exists_padding (u : List UInt8) {total : Nat} (htotal : total < 2 ^ 32) :
    ∃ missing, total ≤ (u ++ List.replicate missing 0).length ∧
      uint32 ((u ++ List.replicate missing 0).length : Int) = total := by
  obtain ⟨turns, hturns⟩ : ∃ turns, u.length ≤ total + 2 ^ 32 * turns := by
    by_cases hfew : u.length ≤ total
    · exact ⟨0, by omega⟩
    · exact ⟨u.length, by omega⟩
  obtain ⟨missing, hmissing⟩ : ∃ missing, u.length + missing = total + 2 ^ 32 * turns :=
    ⟨_, Nat.add_sub_cancel' hturns⟩
  have hlen : (u ++ List.replicate missing 0).length = total + 2 ^ 32 * turns := by
    rw [List.length_append, List.length_replicate, hmissing]
  refine ⟨missing, by omega, ?_⟩
  rw [hlen]
  unfold uint32
  omega

/-- A chunk that has begun is taken when zeros follow, as many as are missing. Behind more bytes
than are counted they go on to the next multiple of `2^32`. -/
theorem continues {s : RtmpIn} {u : List UInt8} (hs : s.Sound) (hk : 1 ≤ s.inChunkSize.toInt)
    (hroomy : Roomy s u) :
    ∃ v s' n out, parseMessage s (u ++ v) = ⟨out, .ok (s', (u ++ v).drop n)⟩ ∧ 0 < n := by
  obtain ⟨b, hb, hpos, hthree⟩ := front_chunk s u
  obtain ⟨bytes, hbytes⟩ := Int.eq_ofNat_of_zero_le (@sizes_nonneg (front s u) hs hk b).2
  have hroom := hroomy b hb
  have hbytes_lt : bytes < 2 ^ 31 := by
    have hmax := s.inChunkSize.toInt_lt
    have hmin : (front s u).bodyLength b ≤ s.inChunkSize.toInt := min_le_right _ _
    omega
  have hheader : (front s u).headerBytes b =
      b.fmt.fieldBytes + if (front s u).extended b then 4 else 0 := rfl
  have hfields : b.fmt.fieldBytes ≤ 11 := by cases b.fmt <;> decide
  have hheader_le : (front s u).headerBytes b ≤ b.fmt.fieldBytes + 4 := by
    rw [hheader]
    split <;> omega
  generalize hchunk : (front s u).headerBytes b + bytes = size at *
  obtain ⟨total, htotal⟩ : ∃ total, total = b.parsed + max size 1 := ⟨_, rfl⟩
  obtain ⟨missing, hmissing, hcount⟩ := @exists_padding u total (by omega)
  have hlen : (u ++ List.replicate missing 0).length = u.length + missing := by
    rw [List.length_append, List.length_replicate]
  have hfront : (front s u).unread.length = u.length + 18 := by
    change (u ++ List.replicate 18 0).length = _
    rw [List.length_append, List.length_replicate]
  replace hcount : (enter s (u ++ List.replicate missing 0)).totalBytes = total := hcount
  have hagree : ∀ k, k ≤ b.parsed + b.fmt.fieldBytes →
      (u ++ List.replicate missing 0).take k = (front s u).unread.take k :=
    fun k hle => padded_take (by omega) (by omega)
  have hbasic : basicHeader (u ++ List.replicate missing 0) total = .ok (some b) :=
    basicHeader_agree (chunk_basic hb) (hagree _ (by omega)) (by omega) (by omega) (by omega)
  have hsize : ((total : Int) - b.parsed) = (max size 1 : Nat) := by omega
  have hchunk' : (enter s (u ++ List.replicate missing 0)).chunk = some b := by
    refine chunk_of_basic (hcount.symm ▸ hbasic) (by omega) ?_
    rw [hcount, hsize]
    exact size_passes (by omega) (by omega) fun hfmt => by have := hroom hfmt; omega
  obtain ⟨hheaders, hbodies⟩ := @sizes_agree (enter s (u ++ List.replicate missing 0)) (front s u) b rfl
    (hagree _ (Nat.le_refl _)) (by change _ ≤ (u ++ List.replicate missing 0).length; omega) (by omega)
  obtain ⟨s', out, ht⟩ := takes_chunk hs hk hchunk' (hbodies.trans hbytes) (by omega)
    (by change _ ≤ (u ++ List.replicate missing 0).length; omega) (by omega)
  refine ⟨_, s', _, out, parseMessage_takes ht ?_, by omega⟩
  change uint32 (((enter s (u ++ List.replicate missing 0)).totalBytes : Int) - _) ≤ 1
  rw [hcount, uint32_sub (by omega) (by omega)]
  omega

end LoopHead

theorem LoopRun.inChunkSize {past : List LoopHead} {h : LoopHead} (hrun : LoopRun past h)
    (htame : ∀ g ∈ past, g.Tame) : 1 ≤ h.context.inChunkSize.toInt := by
  induction hrun with
  | start piece =>
      change (1 : Int) ≤ (128 : Int32).toInt
      decide
  | pass _ ht ih =>
      have hk := ih fun g hg => htame g (List.mem_append_left _ hg)
      exact (htame _ (List.mem_append_right _ List.mem_cons_self)).take_inChunkSize ht hk
  | @call past h s piece _ hw ih =>
      have hk := ih fun g hg => htame g (List.mem_append_left _ hg)
      change 1 ≤ s.inChunkSize.toInt
      rwa [LoopHead.wait_inChunkSize hw]

/-- As long as every Set Chunk Size message has a value of at least one, no size is negative, and a
chunk that has begun can be completed. -/
theorem LoopRun.never_wedged {past : List LoopHead} {h : LoopHead} (hrun : LoopRun past h)
    (htame : ∀ g ∈ past, g.Tame) :
    1 ≤ h.context.inChunkSize.toInt ∧
    (∀ b, h.chunk = some b → (∀ size, h.newPacketSize b = some size → 0 ≤ size) ∧ 0 ≤ h.bodyLength b) ∧
    ∀ s, h.attempt = .wait s → LoopHead.Roomy s h.unread →
      ∃ v s' n out, parseMessage s (h.unread ++ v) = ⟨out, .ok (s', (h.unread ++ v).drop n)⟩ ∧ 0 < n := by
  have hk := hrun.inChunkSize htame
  refine ⟨hk, fun b _ => LoopHead.sizes_nonneg hrun.sound hk b, ?_⟩
  intro s hw hroomy
  have hsame := LoopHead.wait_inChunkSize hw
  exact LoopHead.continues (LoopHead.wait_sound hrun.sound hw) (by rwa [hsame]) hroomy

/-- A Set Chunk Size message with this value. -/
def chunkSizeMessage (value : UInt8) : LoopHead :=
  .enter {} [2, 0, 0, 0, 0, 0, 4, 1, 0, 0, 0, 0, 0, 0, 0, value]

theorem chunkSizeMessage_run (value : UInt8) (hmessages : (chunkSizeMessage value).messages ≠ []) :
    LoopRun [chunkSizeMessage value] (chunkSizeMessage value).next := by
  obtain ⟨s, n, ht, hnext⟩ := LoopHead.attempt_of_messages hmessages
  rw [hnext]
  exact .pass (.start _) ht

/-- Behind a message that sets the chunk size to 1 there are bytes with which the receiver goes on. -/
theorem LoopRun.never_wedged_one : 1 ≤ (chunkSizeMessage 1).next.context.inChunkSize.toInt ∧
    ∃ v s n out, parseMessage (chunkSizeMessage 1).next.context v = ⟨out, .ok (s, v.drop n)⟩ ∧ 0 < n := by
  have htame : ∀ g ∈ [chunkSizeMessage 1], g.Tame := by
    intro g hg s n out ht packet hmem _ _
    obtain rfl := List.mem_singleton.mp hg
    have hall : ∀ p ∈ (chunkSizeMessage 1).messages,
        1 ≤ (UInt32.ofNat (beValue (p.data.take 4))).toInt32.toInt := by decide
    refine hall packet ?_
    unfold LoopHead.messages
    rw [ht]
    exact hmem
  obtain ⟨hsize, -, hcontinues⟩ := LoopRun.never_wedged (chunkSizeMessage_run 1 (by decide)) htame
  have hempty : (chunkSizeMessage 1).next.unread = [] := by decide
  rw [hempty] at hcontinues
  refine ⟨hsize, hcontinues _ rfl fun b hb _ => ?_⟩
  have hroomy : ((LoopHead.front (chunkSizeMessage 1).next.context []).chunk.all fun b =>
      (LoopHead.front (chunkSizeMessage 1).next.context []).headerBytes b +
        (LoopHead.front (chunkSizeMessage 1).next.context []).bodyLength b < 2 ^ 31) = true := by decide
  rw [hb] at hroomy
  exact of_decide_eq_true hroomy

theorem chunkSize_zero : ¬ ∀ past h, LoopRun past h → 1 ≤ h.context.inChunkSize.toInt := by
  intro hclaim
  have hzero : (chunkSizeMessage 0).next.context.inChunkSize.toInt = 0 := by decide
  have hone := hclaim _ _ (chunkSizeMessage_run 0 (by decide))
  omega

end TmmsServer
