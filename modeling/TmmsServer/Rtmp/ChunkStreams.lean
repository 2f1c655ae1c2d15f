import TmmsServer.Lib.Interleave
import TmmsServer.Rtmp.ChunkResume

/-!
# Chunk streams do not interfere

Rows of complete chunks, with the chunks of several streams in any order. A pass
reads and writes what the maps hold for its own chunk stream; all share the chunk
size, which only a Set Chunk Size message changes.
-/
namespace TmmsServer
open Lib.Words Lib.Feed Lib.Interleave BytesReader

/-- The chunk stream a packet is on. -/
def Packet.csId (packet : Packet) : Option UInt32 := packet.ext.map (·.csId)

section Pass
variable {fmt : RtmpFmt} {prev header : RtmpMsgHeader} {delta : UInt32} {ext : Bool} {p : List UInt8}

theorem messageHeader_ok {m : MessageHeader} (h : messageHeader fmt prev header delta p = .ok m) :
    m.header.csId = header.csId ∧ m.parsed ≤ 11 := by
  cases fmt with
  | fmt0 =>
      obtain ⟨ts, -, h⟩ := of_bind_ok h
      obtain ⟨msgLen, -, h⟩ := of_bind_ok h
      obtain ⟨msgType, -, h⟩ := of_bind_ok h
      obtain ⟨msgSid, -, h⟩ := of_bind_ok h
      obtain rfl := Except.ok.inj h
      exact ⟨rfl, by dsimp only; omega⟩
  | fmt1 =>
      obtain ⟨ts, -, h⟩ := of_bind_ok h
      obtain ⟨msgLen, -, h⟩ := of_bind_ok h
      obtain ⟨msgType, -, h⟩ := of_bind_ok h
      obtain rfl := Except.ok.inj h
      exact ⟨rfl, by dsimp only; omega⟩
  | fmt2 =>
      obtain ⟨ts, -, h⟩ := of_bind_ok h
      obtain rfl := Except.ok.inj h
      exact ⟨rfl, by dsimp only; omega⟩
  | fmt3 =>
      obtain rfl := Except.ok.inj h
      exact ⟨rfl, by dsimp only; omega⟩

/-- The header phase keeps the chunk stream of the header and passes over 15 bytes at most. -/
theorem streamHeader_ready {avail : Nat} {header' : RtmpMsgHeader} {delta' : UInt32} {ext' : Bool} {n : Nat}
    (h : streamHeader fmt prev header delta ext p avail = .ok (.ready header' delta' ext' n)) :
    header'.csId = header.csId ∧ n ≤ 15 := by
  obtain ⟨m, hm, h⟩ := of_bind_ok h
  obtain ⟨hcsId, hparsed⟩ := messageHeader_ok hm
  dsimp only at h
  generalize (if fmt = .fmt3 then ext else m.ts == 0xFFFFFF) = e at h
  cases e with
  | true =>
      rw [if_pos rfl] at h
      split at h
      · exact absurd (Except.ok.inj h) nofun
      · obtain ⟨ts, -, h⟩ := of_bind_ok h
        split at h
        · obtain ⟨rfl, -, -, rfl⟩ := HeaderPass.ready.inj (Except.ok.inj h)
          exact ⟨hcsId, by omega⟩
        · obtain ⟨rfl, -, -, rfl⟩ := HeaderPass.ready.inj (Except.ok.inj h)
          exact ⟨hcsId, by omega⟩
  | false =>
      obtain ⟨rfl, -, -, rfl⟩ := HeaderPass.ready.inj (Except.ok.inj h)
      exact ⟨hcsId, by omega⟩

/-- A chunk that is stored: its packet is on the stream of the header, and its body no longer than a chunk. -/
theorem bodyPass_chunk {packet : Packet} {k : Int32} {avail parsed n : Nat} {t : InStream}
    {done : Option Packet}
    (h : bodyPass prev packet k p avail (.ready header delta ext parsed) = .ok (.chunk t n done)) :
    (∀ q, t.packet = some q ∨ done = some q → q.csId = some header.csId) ∧
    n ≤ parsed + k.toInt.toNat := by
  unfold bodyPass copyBody at h
  dsimp only at h
  split at h
  · exact absurd (Except.ok.inj h) nofun
  · split at h
    · exact absurd h nofun
    · obtain ⟨body, hbody, h⟩ := of_bind_ok h
      have hlen : body.length ≤ k.toInt.toNat := by
        unfold readBytes at hbody
        split at hbody
        · obtain rfl := Except.ok.inj hbody
          rw [List.length_take]
          omega
        · exact absurd hbody nofun
      obtain ⟨stored, hstored, h⟩ := of_bind_ok h
      have hext : stored.ext = some header := by
        unfold Packet.store at hstored
        split at hstored
        · obtain rfl := Except.ok.inj hstored
          rfl
        · exact absurd hstored nofun
      split at h
      · obtain ⟨rfl, rfl, rfl⟩ := StreamPass.chunk.inj (Except.ok.inj h)
        refine ⟨fun q hq => ?_, by omega⟩
        rcases hq with hq | hq
        · exact absurd hq nofun
        · obtain rfl := Option.some.inj hq
          rw [Packet.csId, hext]
          rfl
      · obtain ⟨rfl, rfl, rfl⟩ := StreamPass.chunk.inj (Except.ok.inj h)
        refine ⟨fun q hq => ?_, by omega⟩
        rcases hq with hq | hq
        · obtain rfl := Option.some.inj hq
          rw [Packet.csId, hext]
          rfl
        · exact absurd hq nofun

/-- The packet in the map of a chunk stream is on that stream. -/
def InStream.On (t : InStream) (csid : UInt32) : Prop := ∀ q, t.packet = some q → q.csId = some csid

/-- The packet that is open goes on; a new one is made for the stream. -/
theorem goesOn_on {t : InStream} {csid msgLen : UInt32} {packet : Packet} (ht : t.On csid)
    (h : (match t.packet with
      | some packet => (pure (t.header.getD {}, packet) : Checked (RtmpMsgHeader × Packet))
      | none => do
          let packet ← Packet.newPacket (int32 msgLen.toNat)
          return (t.header.getD {}, packet.setExt { csId := csid, msgLen })) = .ok (prev, packet)) :
    packet.csId = some csid := by
  cases hpacket : t.packet with
  | some q =>
      rw [hpacket] at h
      obtain ⟨-, rfl⟩ := Prod.mk.inj (Except.ok.inj h)
      exact ht q hpacket
  | none =>
      rw [hpacket] at h
      obtain ⟨new, -, h⟩ := of_bind_ok h
      obtain ⟨-, rfl⟩ := Prod.mk.inj (Except.ok.inj h)
      rfl

theorem openPacket_on {t : InStream} {csid : UInt32} {k : Int32} {packet : Packet} (ht : t.On csid)
    (h : openPacket t fmt csid k p = .ok (prev, packet)) : packet.csId = some csid := by
  unfold openPacket at h
  dsimp only at h
  split at h
  · obtain ⟨msgLen, -, h⟩ := of_bind_ok h
    exact goesOn_on ht h
  · obtain ⟨msgLen, -, h⟩ := of_bind_ok h
    exact goesOn_on ht h

/-- A chunk of a stream: what is open or completed by it is on the stream, and it is of bounded length. -/
theorem parseStream_chunk {t t' : InStream} {csid : UInt32} {k : Int32} {avail n : Nat}
    {done : Option Packet}
    (ht : t.On csid) (h : parseStream t fmt csid k p avail = .ok (.chunk t' n done)) :
    t'.On csid ∧ (∀ q, done = some q → q.csId = some csid) ∧ n ≤ 15 + k.toInt.toNat := by
  obtain ⟨⟨prev, packet⟩, hopen, h⟩ := of_bind_ok h
  have hcsId := openPacket_on ht hopen
  dsimp only at h
  cases hext : packet.ext with
  | none =>
      rw [hext] at h
      exact absurd h nofun
  | some header =>
      rw [Packet.csId, hext] at hcsId
      have hsame : header.csId = csid := Option.some.inj hcsId
      rw [hext] at h
      obtain ⟨pass, hpass, h⟩ := of_bind_ok h
      cases pass with
      | short header' delta ext => exact absurd (Except.ok.inj h) nofun
      | ready header' delta ext parsed =>
          obtain ⟨hheader, hparsed⟩ := streamHeader_ready hpass
          obtain ⟨hpackets, hn⟩ := bodyPass_chunk h
          rw [hheader, hsame] at hpackets
          exact ⟨fun q hq => hpackets q (.inl hq), fun q hq => hpackets q (.inr hq), by omega⟩

end Pass

/-- The chunk stream of a chunk by its first bytes. -/
def chunkCsid (chunk : List UInt8) : UInt32 :=
  match basicHeader chunk chunk.length with
  | .ok (some b) => b.csId
  | _ => 0

/-- One pass of the loop takes the chunk as a whole. -/
def TakesChunk (s : RtmpIn) (chunk : List UInt8) (s' : RtmpIn) (out : List Packet) : Prop :=
  parseStep s chunk = .take s' chunk.length out

/-- A pass that takes something stored a chunk of its stream. -/
theorem parseStep_take {s s' : RtmpIn} {u : List UInt8} {n : Nat} {out : List Packet}
    (h : parseStep s u = .take s' n out) :
    ∃ b t parsed done, basicHeader u u.length = .ok (some b) ∧
      parseStream (s.stream b.csId) b.fmt b.csId s.inChunkSize (u.drop b.parsed) (uint32 (u.length - b.parsed)) =
        .ok (.chunk t parsed done) ∧
      Attempt.take s' n out = s.finishPass b (.ok (.chunk t parsed done)) ∧
      ∀ s₁ : RtmpIn, s₁.stream b.csId = s.stream b.csId → s₁.inChunkSize = s.inChunkSize →
        parseStep s₁ u = s₁.finishPass b (.ok (.chunk t parsed done)) := by
  unfold parseStep at h ⊢
  split at h
  next hlen =>
    unfold parseChunk at h ⊢
    cases hb : basicHeader u u.length with
    | error e =>
        rw [hb] at h
        exact absurd h nofun
    | ok b =>
        rw [hb] at h
        cases b with
        | none => exact absurd h nofun
        | some b =>
            dsimp only at h ⊢
            split at h
            · exact absurd h nofun
            next hsize =>
              cases hpass : parseStream (s.stream b.csId) b.fmt b.csId s.inChunkSize (u.drop b.parsed)
                  (uint32 (u.length - b.parsed)) with
              | error e =>
                  rw [hpass] at h
                  exact absurd h nofun
              | ok pass =>
                  rw [hpass] at h
                  cases pass with
                  | more t => exact absurd h nofun
                  | chunk t parsed done =>
                      refine ⟨b, t, parsed, done, rfl, hpass, ?_, fun s₁ hstream hk => ?_⟩
                      · rw [← h]
                        cases done <;> rfl
                      · rw [if_pos hlen, if_neg hsize, hstream, hk, hpass]
                        cases done <;> rfl
  next => exact absurd h nofun

theorem messageComplete_stream (s : RtmpIn) (packet : Packet) (csid : UInt32) :
    (s.messageComplete packet).stream csid = s.stream csid := by
  unfold RtmpIn.messageComplete RtmpIn.handleChunkSize
  split
  · split
    · rfl
    · rfl
  · rfl

theorem finishPass_take {s s' : RtmpIn} {b : BasicHeader} {t : InStream} {parsed n : Nat}
    {done : Option Packet}
    {out : List Packet} (h : Attempt.take s' n out = s.finishPass b (.ok (.chunk t parsed done))) :
    (∀ csid, s'.stream csid = (s.setStream b.csId t).stream csid) ∧ n = b.parsed + parsed ∧
    out = done.toList ∧
      ((∀ packet, done = some packet → packet.type ≠ kRtmpMsgTypeChunkSize.toNat) →
        s'.inChunkSize = s.inChunkSize) := by
  cases done with
  | none =>
      obtain ⟨rfl, rfl, rfl⟩ := Attempt.take.inj h
      exact ⟨fun _ => rfl, rfl, rfl, fun _ => rfl⟩
  | some packet =>
      obtain ⟨rfl, rfl, rfl⟩ := Attempt.take.inj h
      refine ⟨messageComplete_stream _ packet, rfl, rfl, fun hother => ?_⟩
      rw [RtmpIn.messageComplete, if_neg (hother packet rfl), RtmpIn.setStream_inChunkSize]

theorem chunkCsid_eq {chunk : List UInt8} {b : BasicHeader}
    (hb : basicHeader chunk chunk.length = .ok (some b)) : chunkCsid chunk = b.csId := by
  rw [chunkCsid, hb]

/-- The chunk streams are independent streams that share the chunk size. -/
theorem chunks_independent : Independent TakesChunk chunkCsid RtmpIn.stream RtmpIn.inChunkSize
    (fun packet => packet.type ≠ kRtmpMsgTypeChunkSize.toNat) where
  frame := by
    intro s chunk s' out csid htake hne
    obtain ⟨b, t, parsed, done, hb, -, hfinish, -⟩ := parseStep_take htake
    rw [chunkCsid_eq hb] at hne
    rw [(finishPass_take hfinish).1, RtmpIn.stream_setStream_ne s t hne]
  keeps := by
    intro s chunk s' out htake hquiet
    obtain ⟨b, t, parsed, done, hb, -, hfinish, -⟩ := parseStep_take htake
    obtain ⟨-, -, rfl, hkeeps⟩ := finishPass_take hfinish
    exact hkeeps fun packet hdone => hquiet packet (by rw [hdone]; exact List.mem_singleton.mpr rfl)
  transfer := by
    intro s chunk s' out s₁ htake hstream hk
    obtain ⟨b, t, parsed, done, hb, -, hfinish, hsame⟩ := parseStep_take htake
    rw [chunkCsid_eq hb] at hstream ⊢
    obtain ⟨hview, hn, rfl, -⟩ := finishPass_take hfinish
    have hstep := hsame s₁ hstream hk
    obtain ⟨s₁', htake'⟩ : ∃ s₁', Attempt.take s₁' chunk.length done.toList =
        s₁.finishPass b (.ok (.chunk t parsed done)) := by
      rw [hn]
      cases done with
      | none => exact ⟨_, rfl⟩
      | some packet => exact ⟨_, rfl⟩
    refine ⟨s₁', hstep.trans htake'.symm, ?_⟩
    rw [(finishPass_take htake').1, hview, RtmpIn.stream_setStream, RtmpIn.stream_setStream]

/-- The packets in the maps are on the streams they are kept for. -/
def RtmpIn.Sorted (s : RtmpIn) : Prop := ∀ csid, (s.stream csid).On csid

theorem takesChunk_sorted {s s' : RtmpIn} {chunk : List UInt8} {out : List Packet} (hs : s.Sorted)
    (htake : TakesChunk s chunk s' out) : s'.Sorted ∧
    ∀ packet ∈ out, packet.csId = some (chunkCsid chunk) := by
  obtain ⟨b, t, parsed, done, hb, hpass, hfinish, -⟩ := parseStep_take htake
  obtain ⟨ht, hdone, -⟩ := parseStream_chunk (hs b.csId) hpass
  obtain ⟨hview, -, rfl, -⟩ := finishPass_take hfinish
  rw [chunkCsid_eq hb]
  refine ⟨fun csid => ?_, fun packet hmem => hdone packet (Option.mem_toList.mp hmem)⟩
  rw [hview]
  by_cases hcsid : csid = b.csId
  · rw [hcsid, RtmpIn.stream_setStream]
    exact ht
  · rw [RtmpIn.stream_setStream_ne s t hcsid]
    exact hs csid

theorem basicHeader_parsed {pos : List UInt8} {n : Nat} {b : BasicHeader}
    (h : basicHeader pos n = .ok (some b)) : b.parsed ≤ 3 := by
  obtain ⟨b₀, -, h⟩ := of_bind_ok h
  dsimp only at h
  split at h
  · split at h
    · exact absurd (Except.ok.inj h) nofun
    · obtain ⟨b₁, -, h⟩ := of_bind_ok h
      obtain rfl := Option.some.inj (Except.ok.inj h)
      exact Nat.le_succ 2
  · split at h
    · split at h
      · exact absurd (Except.ok.inj h) nofun
      · obtain ⟨b₁, -, h⟩ := of_bind_ok h
        obtain ⟨b₂, -, h⟩ := of_bind_ok h
        obtain rfl := Option.some.inj (Except.ok.inj h)
        exact Nat.le_refl 3
    · obtain rfl := Option.some.inj (Except.ok.inj h)
      exact Nat.le_add_left 1 2

theorem takesChunk_length {s s' : RtmpIn} {chunk : List UInt8} {out : List Packet} (hs : s.Sorted)
    (htake : TakesChunk s chunk s' out) : chunk.length ≤ 18 + s.inChunkSize.toInt.toNat := by
  obtain ⟨b, t, parsed, done, hb, hpass, hfinish, -⟩ := parseStep_take htake
  obtain ⟨-, -, hparsed⟩ := parseStream_chunk (hs b.csId) hpass
  obtain ⟨-, hn, -⟩ := finishPass_take hfinish
  have hbasic := basicHeader_parsed hb
  omega

/-- A receiver between the chunks of a row that announces no chunk size. -/
structure RtmpIn.Plain (s : RtmpIn) : Prop where
  sorted : s.Sorted
  chunkSize : s.inChunkSize = 128

theorem plain_initial : ({} : RtmpIn).Plain := ⟨fun _ _ h => absurd h nofun, rfl⟩

theorem RtmpIn.Plain.step {s s' : RtmpIn} {chunk : List UInt8} {out : List Packet} (h : s.Plain)
    (htake : TakesChunk s chunk s' out) (hquiet : ∀ packet ∈ out, packet.type ≠ kRtmpMsgTypeChunkSize.toNat) :
    s'.Plain ∧ chunk.length ≤ 146 := by
  have hkeep := chunks_independent.keeps htake hquiet
  have hlen := takesChunk_length h.sorted htake
  have h128 : (128 : Int32).toInt.toNat = 128 := rfl
  rw [h.chunkSize, h128] at hlen
  exact ⟨⟨(takesChunk_sorted h.sorted htake).1, hkeep.trans h.chunkSize⟩, hlen⟩

theorem chunkRun_takes {s s' : RtmpIn} {chunks : List (List UInt8)} {ms : List (UInt32 × Packet)}
    (hs : s.Plain) (hrun : Run TakesChunk chunkCsid s chunks s' ms)
    (hquiet : ∀ m ∈ ms, m.2.type ≠ kRtmpMsgTypeChunkSize.toNat) :
    Takes parseStep (2 ^ 31 - 1) s chunks.flatten s' (ms.map (·.2)) := by
  induction hrun with
  | nil s => exact .nil s
  | @cons s s₁ s₂ chunk chunks out ms htake _ ih =>
      obtain ⟨hs₁, hlen⟩ := hs.step htake fun packet hp =>
        hquiet (chunkCsid chunk, packet) (List.mem_append_left _ (List.mem_map_of_mem hp))
      have hrest := ih hs₁ fun m hm => hquiet m (List.mem_append_right _ hm)
      have hout : (out.map ((chunkCsid chunk, ·))).map (·.2) = out := by
        rw [List.map_map]
        exact List.map_id out
      rw [List.map_append, hout]
      exact .cons (by omega) htake hrest

/-- A row of complete chunks for a fresh receiver, among whose messages is no Set Chunk Size. -/
def PlainChunks (chunks : List (List UInt8)) : Prop :=
  ∃ s' ms, Run TakesChunk chunkCsid {} chunks s' ms ∧ ∀ m ∈ ms,
    m.2.type ≠ kRtmpMsgTypeChunkSize.toNat

theorem feed_chunks {chunks : List (List UInt8)} {s' : RtmpIn} {ms : List (UInt32 × Packet)}
    (hrun : Run TakesChunk chunkCsid {} chunks s' ms)
    (hquiet : ∀ m ∈ ms, m.2.type ≠ kRtmpMsgTypeChunkSize.toNat)
    {pieces : List (List UInt8)} (hpieces : pieces.flatten = chunks.flatten)
    (hfit : Fits parseMessage (2 ^ 31 - 1) {} [] pieces) :
    (feed parseMessage {} [] pieces).out = ms.map (·.2) := by
  have htakes := chunkRun_takes plain_initial hrun hquiet
  obtain ⟨hread, hfit'⟩ := feed_parseMessage hfit
  rw [hread, feed_takes parseChunk_resumable (Nat.zero_le _) (parseChunk_resumable.empty_wait _) hfit'
    (by rw [List.nil_append, hpieces]; exact htakes)]

/-- The chunks may be delivered one by one. -/
theorem chunkRun_fits {s s' : RtmpIn} {chunks : List (List UInt8)} {ms : List (UInt32 × Packet)}
    (hs : s.Plain) (hrun : Run TakesChunk chunkCsid s chunks s' ms)
    (hquiet : ∀ m ∈ ms, m.2.type ≠ kRtmpMsgTypeChunkSize.toNat) :
    Fits parseMessage (2 ^ 31 - 1) s [] chunks := by
  induction hrun with
  | nil s => trivial
  | @cons s s₁ s₂ chunk chunks out ms htake _ ih =>
      obtain ⟨hs₁, hlen⟩ := hs.step htake fun packet hp =>
        hquiet (chunkCsid chunk, packet) (List.mem_append_left _ (List.mem_map_of_mem hp))
      refine ⟨by rw [List.nil_append]; omega, fun s' u' hfin => ?_⟩
      have hread : parseMessage s chunk = ⟨out ++ [], .ok (s₁, [])⟩ := by
        rw [parseMessage_eq_drain s chunk (by omega),
          drain_take parseChunk_resumable (by omega) htake, List.drop_length,
          drain_wait (parseChunk_resumable.empty_wait s₁)]
        rfl
      rw [List.nil_append, hread] at hfin
      obtain ⟨rfl, rfl⟩ := Prod.mk.inj (Except.ok.inj hfin)
      exact ih hs₁ fun m hm => hquiet m (List.mem_append_right _ hm)

theorem PlainChunks.fits {chunks : List (List UInt8)} (h : PlainChunks chunks) :
    Fits parseMessage (2 ^ 31 - 1) {} [] chunks := by
  obtain ⟨s', ms, hrun, hquiet⟩ := h
  exact chunkRun_fits plain_initial hrun hquiet

theorem PlainChunks.filter {chunks : List (List UInt8)} (h : PlainChunks chunks) (c : UInt32) :
    PlainChunks (chunks.filter (chunkCsid · = c)) := by
  obtain ⟨s', ms, hrun, hquiet⟩ := h
  obtain ⟨t', hrun', -⟩ := chunks_independent.project c hrun hquiet (t := {}) rfl rfl
  exact ⟨t', _, hrun', fun m hm => hquiet m (List.mem_of_mem_filter hm)⟩

theorem feed_independent (c : UInt32) {chunks : List (List UInt8)} (hplain : PlainChunks chunks)
    {pieces pieces' : List (List UInt8)} (hpieces : pieces.flatten = chunks.flatten)
    (hpieces' : pieces'.flatten = (chunks.filter (chunkCsid · = c)).flatten)
    (hfit : Fits parseMessage (2 ^ 31 - 1) {} [] pieces)
    (hfit' : Fits parseMessage (2 ^ 31 - 1) {} [] pieces') :
    (feed parseMessage {} [] pieces).out.filter (·.csId = some c) = (feed parseMessage {} [] pieces').out := by
  obtain ⟨s', ms, hrun, hquiet⟩ := hplain
  obtain ⟨t', hrun', -⟩ := chunks_independent.project c hrun hquiet (t := {}) rfl rfl
  have hquiet' : ∀ m ∈ ms.filter (·.1 = c), m.2.type ≠ kRtmpMsgTypeChunkSize.toNat := fun m hm =>
    hquiet m (List.mem_of_mem_filter hm)
  have hkeys := @Run.invariant _ _ _ _ _ _ RtmpIn.Sorted (fun csid packet => packet.csId = some csid) takesChunk_sorted
    _ _ _ _ plain_initial.sorted hrun
  rw [feed_chunks hrun hquiet hpieces hfit, feed_chunks hrun' hquiet' hpieces' hfit',
    List.filter_map]
  congr 1
  apply List.filter_congr
  intro m hm
  have hkey := hkeys.2 m hm
  rw [Function.comp_apply, hkey]
  exact decide_eq_decide.mpr Option.some_inj

/-- The messages completed on a chunk stream are those its chunks give alone, in the same order and
equal in all they hold: for the chunks delivered one by one, and for either row cut in any way by
which no call has `2 ^ 31` readable bytes. -/
theorem chunkStreams_independent (c : UInt32) {chunks : List (List UInt8)}
    (hplain : PlainChunks chunks) : (feed parseMessage {} [] chunks).out.filter (·.csId = some c) =
        (feed parseMessage {} [] (chunks.filter (chunkCsid · = c))).out ∧
      ∀ pieces pieces' : List (List UInt8), pieces.flatten = chunks.flatten →
        pieces'.flatten = (chunks.filter (chunkCsid · = c)).flatten →
        Fits parseMessage (2 ^ 31 - 1) {} [] pieces → Fits parseMessage (2 ^ 31 - 1) {} [] pieces' →
        (feed parseMessage {} [] pieces).out.filter (·.csId = some c) = (feed parseMessage {} [] pieces').out :=
  ⟨feed_independent c hplain rfl rfl hplain.fits (hplain.filter c).fits,
    fun _ _ hpieces hpieces' => feed_independent c hplain hpieces hpieces'⟩

/-- The run over a row of chunks, where each is complete. -/
def runChunks (s : RtmpIn) : List (List UInt8) → Option (RtmpIn × List (UInt32 × Packet))
  | [] => some (s, [])
  | chunk :: chunks =>
      match parseStep s chunk with
      | .take s' n out =>
          if n = chunk.length then (runChunks s' chunks).map fun r => (r.1, out.map (chunkCsid chunk, ·) ++ r.2)
          else none
      | _ => none

theorem runChunks_run {s s' : RtmpIn} {chunks : List (List UInt8)} {ms : List (UInt32 × Packet)}
    (h : runChunks s chunks = some (s', ms)) : Run TakesChunk chunkCsid s chunks s' ms := by
  induction chunks generalizing s ms with
  | nil =>
      obtain ⟨rfl, rfl⟩ := Prod.mk.inj (Option.some.inj h)
      exact .nil s
  | cons chunk chunks ih =>
      unfold runChunks at h
      split at h
      next s₁ n out htake =>
        split at h
        next hn =>
          obtain ⟨⟨s₂, ms₂⟩, hrest, hpair⟩ := Option.map_eq_some_iff.mp h
          obtain ⟨rfl, rfl⟩ := Prod.mk.inj hpair
          refine .cons ?_ (ih hrest)
          rw [TakesChunk, htake, hn]
        next => exact absurd h nofun
      next => exact absurd h nofun

theorem takesChunk_of_run {s s' : RtmpIn} {chunk : List UInt8} {ms : List (UInt32 × Packet)}
    (h : runChunks s [chunk] = some (s', ms)) : TakesChunk s chunk s' (ms.map (·.2)) := by
  have hrun := runChunks_run h
  cases hrun with
  | cons htake hnil =>
      cases hnil
      rw [List.append_nil, List.map_map]
      exact htake.trans (congrArg _ (List.map_id _).symm)

def plain (ms : List (UInt32 × Packet)) : Bool :=
  ms.all fun m => m.2.type != kRtmpMsgTypeChunkSize.toNat

theorem plainChunks_of_run {chunks : List (List UInt8)}
    (h : (runChunks {} chunks).any (fun r => plain r.2) = true) : PlainChunks chunks := by
  obtain ⟨⟨s', ms⟩, hrun, hplain⟩ := (Option.any_eq_true _ _).mp h
  exact ⟨s', ms, runChunks_run hrun, fun m hm => bne_iff_ne.mp (List.all_eq_true.mp hplain m hm)⟩

/-- Two messages in turn: a body of 130 bytes on stream 4 in two chunks, and between them one byte on stream 2. -/
def twoInTurn : List (List UInt8) :=
  [[4, 0, 0, 5, 0, 0, 130, 9, 1, 0, 0, 0] ++ List.replicate 128 7, oneByteMessage, [0xC4, 8, 9]]

theorem chunkStreams_independent_twoInTurn :
    (feed parseMessage {} [] twoInTurn).out.filter (·.csId = some 4) =
        (feed parseMessage {} [] (twoInTurn.filter (chunkCsid · = 4))).out ∧
      ∀ pieces pieces' : List (List UInt8), pieces.flatten = twoInTurn.flatten →
        pieces'.flatten = (twoInTurn.filter (chunkCsid · = 4)).flatten →
        Fits parseMessage (2 ^ 31 - 1) {} [] pieces → Fits parseMessage (2 ^ 31 - 1) {} [] pieces' →
        (feed parseMessage {} [] pieces).out.filter (·.csId = some 4) = (feed parseMessage {} [] pieces').out :=
  chunkStreams_independent 4 (plainChunks_of_run (by decide +kernel))

/-- One byte on stream 3. -/
def filler : List UInt8 := [3, 0, 0, 0, 0, 0, 1, 8, 0, 0, 0, 0, 0xBB]

def fillerPacket : Packet := { type := 8, timestamp := 0, capacity := 1, data := [0xBB], ext := some ⟨3, 0, 1, 8, 0⟩ }

theorem stream_of_parts {t u : InStream}
    (h : (t.header, t.packet, t.delta, t.ext) = (u.header, u.packet, u.delta, u.ext)) : t = u := by
  cases t
  cases u
  simp only [Prod.mk.injEq] at h
  simp only [h]

theorem filler_again : ∃ s₁ s₂, TakesChunk {} filler s₁ [fillerPacket] ∧
    TakesChunk s₁ filler s₂ [fillerPacket] ∧ s₂.stream 3 = s₁.stream 3 := by
  have hrun : (runChunks {} [filler]).any (fun r => r.2 == [(3, fillerPacket)] &&
      (runChunks r.1 [filler]).any fun r' => r'.2 == [(3, fillerPacket)] &&
        (((r'.1.stream 3).header, (r'.1.stream 3).packet, (r'.1.stream 3).delta, (r'.1.stream 3).ext) ==
          ((r.1.stream 3).header, (r.1.stream 3).packet, (r.1.stream 3).delta, (r.1.stream 3).ext))) = true := by
    decide +kernel
  obtain ⟨⟨s₁, ms₁⟩, h₁, hboth⟩ := (Option.any_eq_true _ _).mp hrun
  obtain ⟨hms₁, hrest⟩ := Bool.and_eq_true_iff.mp hboth
  obtain ⟨⟨s₂, ms₂⟩, h₂, hsame⟩ := (Option.any_eq_true _ _).mp hrest
  obtain ⟨hms₂, hstream⟩ := Bool.and_eq_true_iff.mp hsame
  obtain rfl : ms₁ = [(3, fillerPacket)] := eq_of_beq hms₁
  obtain rfl : ms₂ = [(3, fillerPacket)] := eq_of_beq hms₂
  exact ⟨s₁, s₂, takesChunk_of_run h₁, takesChunk_of_run h₂, stream_of_parts (eq_of_beq hstream)⟩

theorem chunkCsid_filler : chunkCsid filler = 3 := by decide

theorem fillers_run {s₁ s₂ : RtmpIn} (htake : TakesChunk s₁ filler s₂ [fillerPacket])
    (hsame : s₂.stream 3 = s₁.stream 3)
    (n : Nat) {s : RtmpIn} (hstream : s.stream 3 = s₁.stream 3) (hk : s.inChunkSize = s₁.inChunkSize) :
    ∃ s', Run TakesChunk chunkCsid s (List.replicate n filler) s' (List.replicate n (3, fillerPacket)) := by
  induction n generalizing s with
  | zero => exact ⟨s, .nil s⟩
  | succ n ih =>
      obtain ⟨t, htake', hview⟩ := chunks_independent.transfer htake hstream hk
      rw [chunkCsid_filler] at hview
      have hkeep := chunks_independent.keeps htake' fun packet hp => by
        rw [List.mem_singleton.mp hp]
        decide
      obtain ⟨s', hrun⟩ := ih (s := t) (hview.trans hsame) (hkeep.trans hk)
      exact ⟨s', .cons htake' hrun⟩

/-- A one-byte message on stream 2 with many on stream 3 behind it. -/
theorem fillers_plain (n : Nat) : PlainChunks (oneByteMessage :: filler :: List.replicate n filler) := by
  obtain ⟨s₁, s₂, htake₁, htake₂, hsame⟩ := filler_again
  have hfirst : (runChunks {} [oneByteMessage]).any (fun r => plain r.2) = true := by decide
  obtain ⟨⟨s₀, ms⟩, h₀, hplain⟩ := (Option.any_eq_true _ _).mp hfirst
  have htake₀ := takesChunk_of_run h₀
  have hquiet : ∀ packet ∈ ms.map (·.2), packet.type ≠ kRtmpMsgTypeChunkSize.toNat := by
    intro packet hp
    obtain ⟨m, hm, rfl⟩ := List.mem_map.mp hp
    exact bne_iff_ne.mp (List.all_eq_true.mp hplain m hm)
  have hfiller : fillerPacket.type ≠ kRtmpMsgTypeChunkSize.toNat := by decide
  have hframe : s₀.stream 3 = ({} : RtmpIn).stream 3 := chunks_independent.frame htake₀ (by decide)
  have hkeep₀ := chunks_independent.keeps htake₀ hquiet
  obtain ⟨t₁, htake, hview⟩ :=
    chunks_independent.transfer htake₁ (t := s₀) (by rw [chunkCsid_filler]; exact hframe) hkeep₀
  rw [chunkCsid_filler] at hview
  have hsingle : ∀ packet ∈ [fillerPacket], packet.type ≠ kRtmpMsgTypeChunkSize.toNat := by
    intro packet hp
    rw [List.mem_singleton.mp hp]
    exact hfiller
  have hkeep₁ := chunks_independent.keeps htake hsingle
  have hkeep := chunks_independent.keeps htake₁ hsingle
  obtain ⟨s', hrun⟩ := fillers_run htake₂ hsame n hview (hkeep₁.trans (hkeep₀.trans hkeep.symm))
  refine ⟨s', _, .cons htake₀ (.cons htake hrun), fun m hm => ?_⟩
  rcases List.mem_append.mp hm with hm | hm
  · obtain ⟨packet, hp, rfl⟩ := List.mem_map.mp hm
    exact hquiet packet hp
  · rcases List.mem_append.mp hm with hm | hm
    · obtain ⟨packet, hp, rfl⟩ := List.mem_map.mp hm
      exact hsingle packet hp
    · rw [List.eq_of_mem_replicate hm]
      exact hfiller

/-- In one call with more than `2 ^ 31` bytes the message on stream 2 is not completed. -/
theorem chunkStreams_independent_unbounded :
    ¬ ∀ (c : UInt32) (chunks : List (List UInt8)), PlainChunks chunks →
      (parseMessage {} chunks.flatten).out.filter (·.csId = some c) =
        (parseMessage {} (chunks.filter (chunkCsid · = c)).flatten).out := by
  intro h
  have hsame := h 2 _ (fillers_plain (2 ^ 28))
  have hflat : (oneByteMessage :: filler :: List.replicate (2 ^ 28) filler).flatten =
      2 :: (oneByteMessage.tail ++ (filler ++ (List.replicate (2 ^ 28) filler).flatten)) := rfl
  have hrest : (List.replicate (2 ^ 28) filler).flatten.length = 2 ^ 28 * 13 := by
    rw [List.length_flatten, List.map_replicate, List.sum_replicate_nat]
    rfl
  have hlen : (oneByteMessage.tail ++ (filler ++ (List.replicate (2 ^ 28) filler).flatten)).length =
      25 + 2 ^ 28 * 13 := by
    rw [List.length_append, List.length_append, hrest, ← Nat.add_assoc]
    rfl
  have hwhole := parseMessage_gives_up {} (oneByteMessage.tail ++ (filler ++ (List.replicate (2 ^ 28) filler).flatten))
    (by omega) (by omega)
  have halone : (oneByteMessage :: filler :: List.replicate (2 ^ 28) filler).filter (chunkCsid · = 2) =
      [oneByteMessage] := by
    rw [List.filter_cons_of_pos (by decide), List.filter_cons_of_neg (by decide),
      List.filter_replicate_of_neg (by decide)]
  rw [hflat, hwhole, halone] at hsame
  exact absurd (congrArg List.length hsame) (by decide)

end TmmsServer
