import TmmsServer.Rtmp.ChunkRoundTrip
import TmmsServer.Rtmp.ChunkStreams

/-!
# Body lengths of chunks

What a sender puts behind each chunk header and what a receiver takes there. A
message that fits one chunk of both is taken whole, whatever the chunk size of
the receiver is.
-/
namespace TmmsServer
open Lib.Words Lib.Feed BytesReader

/-- The body lengths of the chunks of a message: `min(remaining, out_chunk_size_)` as long as
something remains. -/
def bodyLengths (remaining : Nat) : List Int :=
  if (remaining : Int) ≤ outChunkSize then [(remaining : Int)]
  else outChunkSize :: bodyLengths (remaining - outChunkSize.toNat)
termination_by remaining
decreasing_by
  unfold outChunkSize at *
  omega

theorem bodyLengths_short {n : Nat} (h : n ≤ 4096) : bodyLengths n = [(n : Int)] := by
  rw [bodyLengths, if_pos (by unfold outChunkSize; omega)]

theorem bodyLengths_long {n : Nat} (h : 4096 < n) :
    bodyLengths n = 4096 :: bodyLengths (n - 4096) := by
  rw [bodyLengths, if_neg (by unfold outChunkSize; omega)]
  rfl

/-- The length of a piece of a body; the other nodes hold headers. -/
def BufferNode.bodyLength (node : BufferNode) : Option Int :=
  match node.addr with
  | .outBuffer _ => none
  | .packet _ _ => some node.size

/-- The body lengths among the nodes built so far. -/
def RtmpOut.bodyLengths (s : RtmpOut) : List Int := s.sendingBufs.filterMap BufferNode.bodyLength

namespace RtmpOut

theorem putBody_lengths (s : RtmpOut) (slot off size : Nat) :
    (s.putBody slot off size).bodyLengths = s.bodyLengths ++ [(size : Int)] := List.filterMap_append

theorem putHeader_lengths {s s' : RtmpOut} {bs : List UInt8} (h : s.putHeader bs = .ok s') :
    s'.bodyLengths = s.bodyLengths := by
  unfold putHeader at h
  cases hw : s.outBuffer.write s.outCurrent bs with
  | error e =>
      rw [hw] at h
      exact absurd h nofun
  | ok outBuffer =>
      rw [hw] at h
      obtain rfl := Except.ok.inj h
      change (s.sendingBufs ++ _).filterMap BufferNode.bodyLength = _
      rw [List.filterMap_append]
      exact List.append_nil _

theorem bodyLoop_lengths {slot : Nat} {msgLen : UInt32} {next : List UInt8}
    (hmax : msgLen.toNat < 2 ^ 31) (fuel : Nat)
    {s s' : RtmpOut} {b : Nat} (hb : b ≤ msgLen.toNat) (hf : msgLen.toNat - b < fuel)
    (hnext : 0 < next.length)
    (hroom : s.outCurrent + next.length * continuations (msgLen.toNat - b) ≤ 4096)
    (h : bodyLoop slot msgLen next fuel s b = .ok s') :
    s'.bodyLengths = s.bodyLengths ++ TmmsServer.bodyLengths (msgLen.toNat - b) := by
  induction fuel generalizing s b with
  | zero => exact absurd hf (Nat.not_lt_zero _)
  | succ fuel ih =>
      by_cases hlast : msgLen.toNat - b ≤ 4096
      · rw [bodyLoop_last hmax hb hlast] at h
        obtain rfl := Except.ok.inj h
        rw [putBody_lengths, bodyLengths_short hlast]
      · have hcount : continuations (msgLen.toNat - b) =
            continuations (msgLen.toNat - (b + 4096)) + 1 := by
          unfold continuations
          omega
        rw [hcount, Nat.mul_add, Nat.mul_one] at hroom
        obtain ⟨s₁, hs₁, hgrow⟩ := putHeader_grows (s.putBody slot b 4096) next
          (by change s.outCurrent + _ ≤ _; omega)
        rw [bodyLoop_more hmax (by omega) (by omega), hs₁, ok_bind] at h
        have hcurrent : s₁.outCurrent = s.outCurrent + next.length := hgrow.current
        have hrest := ih (by omega) (by omega) (by rw [hcurrent]; omega) h
        have hleft : msgLen.toNat - (b + 4096) = msgLen.toNat - b - 4096 := by omega
        rw [hrest, putHeader_lengths hs₁, putBody_lengths, bodyLengths_long (Nat.not_le.mp hlast),
          hleft, List.append_assoc]
        rfl

/-- `BuildChunk` cuts a body into pieces of these lengths. -/
theorem buildChunk_lengths {s s' : RtmpOut} {packet : Packet} {header : RtmpMsgHeader}
    {timestamp : UInt32}
    {fmt0 sent : Bool} (hx : packet.ext = some header) (hmax : header.msgLen.toNat < 2 ^ 31)
    (hroom : s.outCurrent + (s.stream header.csId).headerNeed header timestamp fmt0 ≤ 4096)
    (h : s.buildChunk packet timestamp fmt0 = .ok (s', sent)) :
    s'.bodyLengths = s.bodyLengths ++ TmmsServer.bodyLengths header.msgLen.toNat := by
  unfold OutStream.headerNeed at hroom
  dsimp only at hroom
  unfold buildChunk at h
  rw [hx] at h
  dsimp only at h
  unfold chunkMessage at h
  dsimp only at h
  generalize hc : (s.stream header.csId).choose header timestamp fmt0 = c at h hroom
  obtain ⟨s₁, hs₁, hgrow⟩ := putHeader_grows s (firstHeader c header) (by omega)
  rw [hs₁, ok_bind] at h
  have hcurrent : s₁.outCurrent = s.outCurrent + (firstHeader c header).length := hgrow.current
  obtain ⟨s₂, hs₂, h⟩ := of_bind_ok h
  obtain ⟨rfl, -⟩ := Prod.mk.inj (Except.ok.inj h)
  have hloop := bodyLoop_lengths hmax _ (Nat.zero_le _) (Nat.lt_succ_self _) (nextHeader_pos _ _)
    (by change s₁.outCurrent + _ ≤ _; rw [hcurrent, Nat.sub_zero]; omega) hs₂
  rw [Nat.sub_zero] at hloop
  have hfirst : s₁.bodyLengths = s.bodyLengths := putHeader_lengths hs₁
  rw [← hfirst]
  exact hloop

end RtmpOut

/-- What a pass takes of a body: `min(remaining, in_chunk_size_)`. -/
def bodyLength (s : RtmpIn) (pos : List UInt8) : Int :=
  match basicHeader pos pos.length with
  | .ok (some b) =>
      match openPacket (s.stream b.csId) b.fmt b.csId s.inChunkSize (pos.drop b.parsed) with
      | .ok (_, packet) => min packet.space s.inChunkSize.toInt
      | .error _ => 0
  | _ => 0

section Receiver
variable {s : RtmpIn} {u v : List UInt8}

theorem bodyLength_open {b : BasicHeader} {prev : RtmpMsgHeader} {packet : Packet}
    (hb : basicHeader u u.length = .ok (some b))
    (ho : openPacket (s.stream b.csId) b.fmt b.csId s.inChunkSize (u.drop b.parsed) = .ok (prev, packet)) :
    bodyLength s u = min packet.space s.inChunkSize.toInt := by
  unfold bodyLength
  rw [hb]
  dsimp only
  rw [ho]

theorem parseStream_more {t t' : InStream} {fmt : RtmpFmt} {csid : UInt32} {k : Int32}
    {p : List UInt8} {avail : Nat} (h : parseStream t fmt csid k p avail = .ok (.more t')) :
    ∃ prev packet header delta ext, openPacket t fmt csid k p = .ok (prev, packet) ∧
      t' = ⟨some prev, some (packet.setExt header), delta, ext⟩ := by
  obtain ⟨⟨prev, packet⟩, ho, h⟩ := of_bind_ok h
  dsimp only at h
  cases hx : packet.ext with
  | none =>
      rw [hx] at h
      exact absurd h nofun
  | some header₀ =>
      rw [hx] at h
      obtain ⟨pass, -, h⟩ := of_bind_ok h
      cases pass with
      | short header delta ext =>
          obtain rfl := StreamPass.more.inj (Except.ok.inj h)
          exact ⟨prev, packet, header, delta, ext, ho, rfl⟩
      | ready header delta ext parsed =>
          refine ⟨prev, packet, header, delta, ext, ho, ?_⟩
          unfold bodyPass copyBody at h
          dsimp only at h
          split at h
          · exact (StreamPass.more.inj (Except.ok.inj h)).symm
          · split at h
            · exact absurd h nofun
            · obtain ⟨body, -, h⟩ := of_bind_ok h
              exact absurd h (storeBody_not_more t')

/-- An attempt waits without a note, or it is a pass behind a basic header that is there. -/
theorem parseStep_cases (hu : u.length < 2 ^ 31) : parseStep s u = .wait s ∨
    ∃ b, (∀ v, basicHeader (u ++ v) (u ++ v).length = .ok (some b)) ∧ b.parsed ≤ u.length ∧
      b.fmt.fieldBytes ≤ (u.drop b.parsed).length ∧
      parseStep s u = s.finishPass b (parseStream (s.stream b.csId) b.fmt b.csId s.inChunkSize (u.drop b.parsed)
        (u.drop b.parsed).length) := by
  by_cases h1 : 1 < u.length
  · have hstep : parseStep s u = parseChunk s u u.length := if_pos h1
    rw [hstep]
    rcases basicHeader_resumes [] h1 with hnone | ⟨b, hle, -, hb, -⟩
    · left
      unfold parseChunk
      rw [hnone]
    · by_cases hs : u.length - b.parsed < max 1 b.fmt.fieldBytes
      · exact .inl (parseChunk_short hb hle hu hs)
      · refine .inr ⟨b, fun v => ?_, hle, by rw [List.length_drop]; omega, parseChunk_stream hb hle hu hs⟩
        rcases basicHeader_resumes v h1 with hnone | ⟨b', -, -, hb', hb''⟩
        · rw [hb] at hnone
          exact absurd hnone nofun
        · obtain rfl := Option.some.inj (Except.ok.inj (hb'.symm.trans hb))
          exact hb''
  · exact .inl (if_neg h1)

theorem bodyLength_append {s' : RtmpIn} {n : Nat} {out : List Packet}
    (hN : (u ++ v).length ≤ 2 ^ 31 - 1)
    (h : parseStep s u = .take s' n out) : bodyLength s (u ++ v) = bodyLength s u := by
  have hlen : (u ++ v).length = u.length + v.length := List.length_append
  rcases parseStep_cases (s := s) (by omega : u.length < 2 ^ 31) with hwait | ⟨b, hb, hle, hfields, -⟩
  · rw [h] at hwait
    exact absurd hwait nofun
  · have hb₀ := hb []
    rw [List.append_nil] at hb₀
    have hopen : openPacket (s.stream b.csId) b.fmt b.csId s.inChunkSize ((u ++ v).drop b.parsed) =
        openPacket (s.stream b.csId) b.fmt b.csId s.inChunkSize (u.drop b.parsed) := by
      rw [List.drop_append_of_le_length hle, openPacket_append v hfields]
    unfold bodyLength
    rw [hb v, hb₀]
    dsimp only
    rw [hopen]

theorem bodyLength_wait {s' : RtmpIn} (hN : (u ++ v).length ≤ 2 ^ 31 - 1)
    (h : parseStep s u = .wait s') : bodyLength s' (u ++ v) = bodyLength s (u ++ v) := by
  have hlen : (u ++ v).length = u.length + v.length := List.length_append
  rcases parseStep_cases (s := s) (by omega : u.length < 2 ^ 31) with hwait | ⟨b, hb, hle, hfields, hstep⟩
  · rw [hwait] at h
    rw [Attempt.wait.inj h]
  · rw [h] at hstep
    have hdrop : (u ++ v).drop b.parsed = u.drop b.parsed ++ v := List.drop_append_of_le_length hle
    cases hpass : parseStream (s.stream b.csId) b.fmt b.csId s.inChunkSize (u.drop b.parsed)
        (u.drop b.parsed).length with
    | error e =>
        rw [hpass] at hstep
        exact absurd hstep nofun
    | ok pass =>
        rw [hpass] at hstep
        match pass, hstep, hpass with
        | .chunk t n none, hstep, _ => exact absurd hstep nofun
        | .chunk t n (some packet), hstep, _ => exact absurd hstep nofun
        | .more t, hstep, hpass =>
            obtain rfl := Attempt.wait.inj hstep
            obtain ⟨prev, packet, header, delta, ext, ho, rfl⟩ := parseStream_more hpass
            rw [← openPacket_append v hfields, ← hdrop] at ho
            have hstream := RtmpIn.stream_setStream s b.csId ⟨some prev, some (packet.setExt header), delta, ext⟩
            have hlong : b.fmt.fieldBytes ≤ ((u ++ v).drop b.parsed).length := by
              rw [hdrop, List.length_append]
              omega
            rw [bodyLength_open (hb v) ho, bodyLength_open (hb v) (by
              rw [hstream]
              exact openPacket_again prev (packet.setExt header) delta ext hlong)]
            rfl

/-- The parser with a note of the body length of each chunk. -/
theorem parseStep_noted : Resumable (noted bodyLength parseStep) (2 ^ 31 - 1) :=
  parseChunk_resumable.noted bodyLength_append bodyLength_wait

end Receiver

section Short
variable {r : RtmpIn} {o : OutStream} {packet : Packet} {header : RtmpMsgHeader}

theorem parseStream_chunkSize {t : InStream} {fmt : RtmpFmt} {csid : UInt32} {k k' : Int32}
    {p : List UInt8}
    {avail : Nat} {prev : RtmpMsgHeader} {packet : Packet}
    (h : openPacket t fmt csid k p = .ok (prev, packet))
    (h' : openPacket t fmt csid k' p = .ok (prev, packet))
    (hmin : min packet.space k.toInt = min packet.space k'.toInt) :
    parseStream t fmt csid k p avail = parseStream t fmt csid k' p avail := by
  cases hx : packet.ext with
  | none =>
      unfold parseStream
      rw [h, h', ok_bind, ok_bind]
      dsimp only
      rw [hx]
  | some header₀ =>
      rw [parseStream_open h hx, parseStream_open h' hx]
      congr 1
      funext pass
      cases pass with
      | short header delta ext => rfl
      | ready header delta ext parsed =>
          unfold bodyPass copyBody
          dsimp only
          have hspace : (packet.setExt header).space = packet.space := rfl
          rw [hspace, hmin]

theorem Chunk.takes_short {fmt : RtmpFmt} {csid : UInt32} {hdr piece : List UInt8}
    {h : RtmpMsgHeader} {d : UInt32}
    {e : Bool} (hc : Chunk { r with inChunkSize := 4096 } fmt csid hdr piece h d e [])
    (hwhole : piece.length = h.msgLen.toNat) {prev : RtmpMsgHeader} {packet : Packet}
    (hopens : ∀ k, openPacket (r.stream csid) fmt csid k (hdr ++ piece) = .ok (prev, packet))
    (hspace : packet.space = piece.length) (hfits : (piece.length : Int) ≤ r.inChunkSize.toInt) :
    parseStep r (basicHeaderBytes fmt csid ++ (hdr ++ piece)) =
        .take ((r.setStream csid ⟨some h, none, d, e⟩).messageComplete (.received h piece))
          (basicHeaderBytes fmt csid ++ (hdr ++ piece)).length [.received h piece] ∧
      bodyLength r (basicHeaderBytes fmt csid ++ (hdr ++ piece)) = piece.length := by
  have hfields := hc.fields
  have hpos := hc.piece_pos
  have hpiece := hc.piece_size
  have hlen : (hdr ++ piece).length = hdr.length + piece.length := List.length_append
  have hsize : (piece.length : Int) ≤ (4096 : Int32).toInt := by
    change _ ≤ (4096 : Int)
    omega
  constructor
  · obtain ⟨prev', packet', hstream⟩ : ∃ prev' packet', parseStream (r.stream csid) fmt csid 4096 (hdr ++ piece)
        (hdr ++ piece).length = storeBody ⟨some prev', some packet', d, e⟩ h (.partly h []) piece hdr.length :=
      hc.parseStream_eq
    have hsame : parseStream (r.stream csid) fmt csid r.inChunkSize (hdr ++ piece) (hdr ++ piece).length =
        parseStream (r.stream csid) fmt csid 4096 (hdr ++ piece) (hdr ++ piece).length :=
      parseStream_chunkSize (hopens r.inChunkSize) (hopens 4096) (by rw [hspace]; omega)
    have hdone : storeBody ⟨some prev', some packet', d, e⟩ h (.partly h []) piece hdr.length = .ok (.chunk
        ⟨some h, none, d, e⟩ (hdr.length + piece.length) (some (.received h ([] ++ piece)))) :=
      storeBody_done hc.msgLen ((Nat.zero_add _).trans hwhole)
    rw [parseStep_stream hc.csId_lo hc.csId_hi (by omega) (by omega) hc.small, hsame, hstream,
      hdone, List.length_append, List.length_append]
    rfl
  · have hb := basicHeader_bytes fmt hc.csId_lo hc.csId_hi (hdr ++ piece)
    have hdrop : (basicHeaderBytes fmt csid ++ (hdr ++ piece)).drop (basicHeaderBytes fmt csid).length =
        hdr ++ piece := List.drop_left
    rw [bodyLength_open hb (by rw [hdrop]; exact hopens _), hspace]
    omega

/-- A message that fits one chunk of both sides is taken whole. -/
theorem parseStep_short (hs : Sendable packet header)
    (hlink : Linked o false (r.stream header.csId))
    (hfits : (packet.data.length : Int) ≤ r.inChunkSize.toInt) (hshort : packet.data.length ≤ 4096) :
    ∃ t, parseStep r (o.encode header packet.data 0 false) =
        .take ((r.setStream header.csId t).messageComplete (.received { header with timestamp := 0 } packet.data))
          (o.encode header packet.data 0 false).length [.received { header with timestamp := 0 } packet.data] ∧
      Linked (o.after header 0 false) false t ∧
      bodyLength r (o.encode header packet.data 0 false) = packet.data.length ∧
      (o.encode header packet.data 0 false).length ≤ 2 ^ 31 - 1 := by
  have hlen := hs.msgLen
  have hpos := hs.msgLen_pos
  have hl := hs.msgLen_lt
  have hlong : (o.choose header 0 false).long = false := choose_short o header false (by decide)
  have hdelta : (o.after header 0 false).delta = 0 := after_delta_zero rfl
  have hne : header.msgLen ≠ 0 := fun h => by
    rw [h] at hpos
    exact Nat.lt_irrefl _ hpos
  unfold OutStream.encode
  generalize hc : o.choose header 0 false = c at hlong
  dsimp only
  have hopening : opening c (o.header.getD {}).timestamp (r.stream header.csId).delta = ⟨0, 0⟩ := by
    rw [opening_short hc hlong fun _ => hlink.delta rfl, hdelta]
  have hchunk := first_chunk (r := { r with inChunkSize := 4096 }) hc hs rfl hlink (fun _ => hlong.symm)
    packet.data (by omega) (by omega)
  change Chunk _ _ _ _ _ { header with timestamp := (opening c _ (r.stream header.csId).delta).timestamp }
    (opening c _ (r.stream header.csId).delta).delta _ _ at hchunk
  rw [hopening, hlong] at hchunk
  have hspace : ({ capacity := header.msgLen.toNat
                   ext := some { csId := header.csId, msgLen := header.msgLen } } : Packet).space =
      (packet.data.length : Int) := by
    change int32 ((header.msgLen.toNat : Int) - 0) = _
    rw [Int.sub_zero, int32_of_lt (by omega) (by omega), hlen]
  obtain ⟨htake, hbody⟩ := hchunk.takes_short hlen.symm (fun k => by
    rw [List.append_assoc]
    exact openPacket_first k hc hlink.header hlink.packet hne hl _) hspace hfits
  rw [chunkedBody_short hshort, firstHeader, List.append_assoc]
  refine ⟨_, htake, ⟨rfl, rfl, rfl, fun _ => hdelta.symm, fun hfull => ?_⟩, hbody, hchunk.small⟩
  rw [hdelta] at hfull
  exact absurd hfull (by decide)

end Short
end TmmsServer
