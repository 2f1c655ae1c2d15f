import Mathlib.Logic.Relation
import TmmsServer.Rtmp.ChunkBounds

/-!
# The passes of the chunk parser

The head of the loop of `ParseMessage`, what one pass from there can do, and the
runs of a receiver from head to head, over calls on deliveries of any length.
-/
namespace TmmsServer
open Lib.Words Lib.Feed BytesReader

/-- The loop of `ParseMessage` between two passes. -/
structure LoopHead where
  context : RtmpIn
  unread : List UInt8
  totalBytes : Nat

namespace LoopHead

/-- The call is entered. -/
def enter (s : RtmpIn) (buf : List UInt8) : LoopHead := ⟨s, buf, uint32 buf.length⟩

/-- The pass from here. -/
def attempt (h : LoopHead) : Attempt RtmpIn Packet Fault :=
  if 1 < h.totalBytes then parseChunk h.context h.unread h.totalBytes else .wait h.context

/-- The next head, behind a chunk of `n` bytes. -/
def behind (h : LoopHead) (s : RtmpIn) (n : Nat) : LoopHead :=
  ⟨s, h.unread.drop n, uint32 (h.totalBytes - n)⟩

/-- The heads a call comes by. -/
def Leads : LoopHead → LoopHead → Prop :=
  Relation.ReflTransGen fun h g => ∃ s n out, h.attempt = .take s n out ∧ g = h.behind s n

/-- The basic header of a pass that gets behind the test of the length. -/
def chunk (h : LoopHead) : Option BasicHeader :=
  if 1 < h.totalBytes then
    match basicHeader h.unread h.totalBytes with
    | .ok (some b) =>
        let size := int32 (h.totalBytes - b.parsed)
        if size = 0 ∨ (b.fmt = .fmt0 ∧ size < 11) ∨ (b.fmt = .fmt1 ∧ size < 7) ∨ (b.fmt = .fmt2 ∧ size < 3) then
          none
        else some b
    | _ => none
  else none

/-- The bytes behind the basic header. -/
def fields (h : LoopHead) (b : BasicHeader) : List UInt8 := h.unread.drop b.parsed

def stream (h : LoopHead) (b : BasicHeader) : InStream := h.context.stream b.csId

/-- `prev`. -/
def prev (h : LoopHead) (b : BasicHeader) : RtmpMsgHeader := (h.stream b).header.getD {}

end LoopHead

/-- A receiver that came by the heads of `past`, in this call and those before, is at a head. Calls
are made on whatever arrives. -/
inductive LoopRun : List LoopHead → LoopHead → Prop
  | start (piece : List UInt8) : LoopRun [] (.enter {} piece)
  | pass {past : List LoopHead} {h : LoopHead} {s : RtmpIn} {n : Nat} {out : List Packet} :
      LoopRun past h → h.attempt = .take s n out → LoopRun (past ++ [h]) (h.behind s n)
  | call {past : List LoopHead} {h : LoopHead} {s : RtmpIn} (piece : List UInt8) :
      LoopRun past h → h.attempt = .wait s → LoopRun (past ++ [h]) (.enter s (h.unread ++ piece))

section Stream
variable {t : InStream} {fmt : RtmpFmt} {csid : UInt32} {k : Int32} {p : List UInt8}

theorem newPacket_fresh {size : Int} {packet : Packet} (h : Packet.newPacket size = .ok packet) :
    ∃ capacity : Nat, packet = { capacity } := by
  unfold Packet.newPacket at h
  split at h
  · exact absurd h nofun
  · exact ⟨_, (Except.ok.inj h).symm⟩

theorem newPacket_size {size : Int} {packet : Packet} (h : Packet.newPacket size = .ok packet) :
    packet.capacity = size := by
  unfold Packet.newPacket at h
  split at h
  · exact absurd h nofun
  · next hneg =>
      obtain rfl := Except.ok.inj h
      exact Int.toNat_of_nonneg (Int.not_lt.mp hneg)

/-- The packet of a pass is the open one, or a new one with room for that length. -/
theorem openPacket_length {q : RtmpMsgHeader × Packet} (h : openPacket t fmt csid k p = .ok q) :
    q.1 = t.header.getD {} ∧ match t.packet with
      | some packet => q.2 = packet
      | none => Packet.newPacket (int32 (chunkLength t fmt k p).toNat) = .ok { capacity := q.2.capacity } ∧
          q.2 = { capacity := q.2.capacity, ext := some { csId := csid, msgLen := chunkLength t fmt k p } } := by
  have hnew : ∀ msgLen, chunkLength t fmt k p = msgLen → (match t.packet with
      | some packet => pure (t.header.getD {}, packet)
      | none => do
          let packet ← Packet.newPacket (int32 (UInt32.toNat msgLen))
          return (t.header.getD {}, packet.setExt { csId := csid, msgLen }) : Checked _) = .ok q →
      q.1 = t.header.getD {} ∧ match t.packet with
        | some packet => q.2 = packet
        | none => Packet.newPacket (int32 (chunkLength t fmt k p).toNat) = .ok { capacity := q.2.capacity } ∧
            q.2 = { capacity := q.2.capacity, ext := some { csId := csid, msgLen := chunkLength t fmt k p } } := by
    rintro msgLen rfl hq
    cases hpacket : t.packet with
    | some packet =>
        rw [hpacket] at hq
        obtain rfl := Except.ok.inj hq
        exact ⟨rfl, rfl⟩
    | none =>
        rw [hpacket] at hq
        obtain ⟨packet, hp, hq⟩ := of_bind_ok hq
        obtain rfl := Except.ok.inj hq
        obtain ⟨capacity, rfl⟩ := newPacket_fresh hp
        exact ⟨rfl, hp, rfl⟩
  unfold openPacket at h
  dsimp only at h
  by_cases hfmt : fmt = .fmt0 ∨ fmt = .fmt1
  · rw [if_pos hfmt] at h
    obtain ⟨msgLen, hread, h⟩ := of_bind_ok h
    refine hnew msgLen ?_ h
    rw [chunkLength, declaredLength_read hfmt hread]
    rfl
  · rw [if_neg hfmt, pure_bind] at h
    refine hnew _ ?_ h
    rw [chunkLength, declaredLength_none hfmt]
    rfl

/-- The header of a chunk keeps its stream, and has the length declared or else known. -/
theorem messageHeader_length {prev header : RtmpMsgHeader} {delta : UInt32} {m : MessageHeader}
    (h : messageHeader fmt prev header delta p = .ok m) :
    m.header.csId = header.csId ∧ m.header.msgLen = (declaredLength fmt p).getD prev.msgLen := by
  cases fmt with
  | fmt0 =>
      obtain ⟨ts, -, h⟩ := of_bind_ok h
      obtain ⟨msgLen, hread, h⟩ := of_bind_ok h
      obtain ⟨msgType, -, h⟩ := of_bind_ok h
      obtain ⟨msgSid, -, h⟩ := of_bind_ok h
      obtain rfl := Except.ok.inj h
      rw [declaredLength_read (.inl rfl) hread]
      exact ⟨rfl, rfl⟩
  | fmt1 =>
      obtain ⟨ts, -, h⟩ := of_bind_ok h
      obtain ⟨msgLen, hread, h⟩ := of_bind_ok h
      obtain ⟨msgType, -, h⟩ := of_bind_ok h
      obtain rfl := Except.ok.inj h
      rw [declaredLength_read (.inr rfl) hread]
      exact ⟨rfl, rfl⟩
  | fmt2 =>
      obtain ⟨ts, -, h⟩ := of_bind_ok h
      obtain rfl := Except.ok.inj h
      exact ⟨rfl, rfl⟩
  | fmt3 =>
      obtain rfl := Except.ok.inj h
      exact ⟨rfl, rfl⟩

/-- The header a pass notes in its packet. -/
def HeaderPass.header : HeaderPass → RtmpMsgHeader
  | .short header _ _ => header
  | .ready header _ _ _ => header

theorem streamHeader_length {prev header : RtmpMsgHeader} {delta : UInt32} {ext : Bool} {avail : Nat}
    {pass : HeaderPass} (h : streamHeader fmt prev header delta ext p avail = .ok pass) :
    pass.header.csId = header.csId ∧ pass.header.msgLen = (declaredLength fmt p).getD prev.msgLen := by
  unfold streamHeader at h
  obtain ⟨m, hm, h⟩ := of_bind_ok h
  have hlength := messageHeader_length hm
  dsimp only at h
  generalize (if fmt = .fmt3 then ext else m.ts == 0xFFFFFF) = e at h
  cases e with
  | false =>
      obtain rfl := Except.ok.inj h
      exact hlength
  | true =>
      rw [if_pos rfl] at h
      split at h
      · obtain rfl := Except.ok.inj h
        exact hlength
      · obtain ⟨ts, -, h⟩ := of_bind_ok h
        split at h
        · obtain rfl := Except.ok.inj h
          exact hlength
        · obtain rfl := Except.ok.inj h
          exact hlength

/-- What a pass does to its stream, from the packet it opened and the header it noted there: it
waits, or it stores the bytes of a body. -/
inductive StreamPass.Results (prev : RtmpMsgHeader) (packet : Packet) (header : RtmpMsgHeader) (k : Int32) :
    StreamPass → Prop
  | more (delta : UInt32) (ext : Bool) :
      Results prev packet header k (.more ⟨some prev, some (packet.setExt header), delta, ext⟩)
  | part (delta : UInt32) (ext : Bool) (parsed : Nat) (body : List UInt8)
      (hlen : (body.length : Int) = min packet.space k.toInt)
      (hfits : packet.data.length + body.length ≤ packet.capacity)
      (hleft : ({ packet with data := packet.data ++ body } : Packet).space ≠ 0) :
      Results prev packet header k (.chunk
        ⟨some header, some { packet with data := packet.data ++ body, ext := some header }, delta, ext⟩ parsed none)
  | whole (delta : UInt32) (ext : Bool) (parsed : Nat) (body : List UInt8)
      (hlen : (body.length : Int) = min packet.space k.toInt)
      (hfits : packet.data.length + body.length ≤ packet.capacity)
      (hleft : ({ packet with data := packet.data ++ body } : Packet).space = 0) :
      Results prev packet header k (.chunk ⟨some header, none, delta, ext⟩ parsed (some
        { packet with
          type := header.msgType.toNat
          timestamp := header.timestamp.toUInt64
          data := packet.data ++ body
          ext := some header }))

theorem bodyPass_results {prev : RtmpMsgHeader} {packet : Packet} {avail : Nat} {pass : HeaderPass}
    {r : StreamPass} (h : bodyPass prev packet k p avail pass = .ok r) :
    StreamPass.Results prev packet pass.header k r := by
  cases pass with
  | short header delta ext =>
      obtain rfl := Except.ok.inj h
      exact .more delta ext
  | ready header delta ext parsed =>
      unfold bodyPass copyBody at h
      dsimp only at h
      split at h
      next =>
        obtain rfl := Except.ok.inj h
        exact .more delta ext
      next =>
        split at h
        next => exact absurd h nofun
        next hneg =>
          obtain ⟨body, hread, h⟩ := of_bind_ok h
          have hlen : (body.length : Int) = min packet.space k.toInt := by
            have hspace : (packet.setExt header).space = packet.space := rfl
            rw [hspace] at hread hneg
            obtain ⟨hin, rfl⟩ := readBytes_ok hread
            rw [List.length_take, List.length_drop]
            omega
          unfold storeBody at h
          obtain ⟨stored, hstored, h⟩ := of_bind_ok h
          unfold Packet.store at hstored
          split at hstored
          next hfits =>
            obtain rfl := Except.ok.inj hstored
            split at h
            next hleft =>
              obtain rfl := Except.ok.inj h
              exact .whole delta ext _ body hlen hfits hleft
            next hleft =>
              obtain rfl := Except.ok.inj h
              exact .part delta ext _ body hlen hfits hleft
          next => exact absurd hstored nofun

theorem parseStream_results {avail : Nat} {r : StreamPass}
    (h : parseStream t fmt csid k p avail = .ok r) :
    ∃ prev packet noted header, openPacket t fmt csid k p = .ok (prev, packet) ∧
      packet.ext = some noted ∧
      header.csId = noted.csId ∧ header.msgLen = (declaredLength fmt p).getD prev.msgLen ∧
      StreamPass.Results prev packet header k r := by
  unfold parseStream at h
  obtain ⟨⟨prev, packet⟩, hopen, h⟩ := of_bind_ok h
  dsimp only at h
  cases hext : packet.ext with
  | none =>
      rw [hext] at h
      exact absurd h nofun
  | some noted =>
      rw [hext] at h
      obtain ⟨pass, hpass, h⟩ := of_bind_ok h
      obtain ⟨hcsId, hmsgLen⟩ := streamHeader_length hpass
      exact ⟨prev, packet, noted, pass.header, hopen, hext, hcsId, hmsgLen, bodyPass_results h⟩

end Stream
theorem basicHeader_inside {pos : List UInt8} {n : Nat} {b : BasicHeader}
    (h : basicHeader pos n = .ok (some b)) : 0 < b.parsed ∧ 0 < pos.length := by
  unfold basicHeader at h
  obtain ⟨b₀, hread, h⟩ := of_bind_ok h
  have hpos : 0 < pos.length := by
    unfold readUint8T at hread
    obtain ⟨bytes, hbytes, -⟩ := of_bind_ok hread
    exact (readBytes_ok hbytes).1
  refine ⟨?_, hpos⟩
  dsimp only at h
  split at h
  · split at h
    · exact absurd (Except.ok.inj h) nofun
    · obtain ⟨b₁, -, h⟩ := of_bind_ok h
      rw [← Option.some.inj (Except.ok.inj h)]
      exact Nat.zero_lt_two
  · split at h
    · split at h
      · exact absurd (Except.ok.inj h) nofun
      · obtain ⟨b₁, -, h⟩ := of_bind_ok h
        obtain ⟨b₂, -, h⟩ := of_bind_ok h
        rw [← Option.some.inj (Except.ok.inj h)]
        exact Nat.zero_lt_succ 2
    · rw [← Option.some.inj (Except.ok.inj h)]
      exact Nat.zero_lt_one

/-- What a pass from `h` has found in front of the bytes, opened and noted. -/
structure LoopHead.Pass (h : LoopHead) (b : BasicHeader) (packet : Packet) (header : RtmpMsgHeader) : Prop where
  chunk : h.chunk = some b
  opened : openPacket (h.stream b) b.fmt b.csId h.context.inChunkSize (h.fields b) = .ok (h.prev b, packet)
  noted : ∃ noted, packet.ext = some noted ∧ header.csId = noted.csId
  length : header.msgLen = (declaredLength b.fmt (h.fields b)).getD (h.prev b).msgLen

namespace LoopHead
variable {h g : LoopHead} {b : BasicHeader} {s : RtmpIn} {n : Nat} {out : List Packet}

theorem chunk_basic (hb : h.chunk = some b) : basicHeader h.unread h.totalBytes = .ok (some b) := by
  unfold chunk at hb
  split at hb
  · split at hb
    next b' hbasic =>
      dsimp only at hb
      split at hb
      · exact absurd hb nofun
      · rw [hbasic, ← Option.some.inj hb]
    next => exact absurd hb nofun
  · exact absurd hb nofun

/-- A pass that gets behind the test of the length is one of its stream; no other changes anything. -/
theorem attempt_cases (h : LoopHead) :
    match h.chunk with
    | none => h.attempt = .wait h.context ∨
        ∃ e, basicHeader h.unread h.totalBytes = .error e ∧ h.attempt = .fail e
    | some b => h.attempt = h.context.finishPass b (parseStream (h.stream b) b.fmt b.csId
        h.context.inChunkSize (h.fields b) (uint32 (h.totalBytes - b.parsed))) := by
  unfold chunk attempt parseChunk
  by_cases h1 : 1 < h.totalBytes
  · rw [if_pos h1, if_pos h1]
    cases hb : basicHeader h.unread h.totalBytes with
    | error e => exact .inr ⟨e, rfl, rfl⟩
    | ok found =>
        cases found with
        | none => exact .inl rfl
        | some b =>
            dsimp only
            split
            next hsize =>
              split at hsize
              · next hshort => exact .inl (if_pos hshort)
              · exact absurd hsize nofun
            next b' hsize =>
              split at hsize
              · exact absurd hsize nofun
              · next hlong =>
                obtain rfl := Option.some.inj hsize
                rw [if_neg hlong]
                unfold RtmpIn.finishPass stream fields
                cases parseStream (h.context.stream b.csId) b.fmt b.csId h.context.inChunkSize
                    (h.unread.drop b.parsed) (uint32 (h.totalBytes - b.parsed)) with
                | error e => rfl
                | ok pass =>
                    cases pass with
                    | more t => rfl
                    | chunk t parsed done => cases done <;> rfl
  · rw [if_neg h1, if_neg h1]
    exact .inl rfl

theorem pass_of_results {r : StreamPass} (hb : h.chunk = some b)
    (hr : parseStream (h.stream b) b.fmt b.csId h.context.inChunkSize (h.fields b)
      (uint32 (h.totalBytes - b.parsed)) = .ok r) :
    ∃ packet header, h.Pass b packet header ∧
      StreamPass.Results (h.prev b) packet header h.context.inChunkSize r := by
  obtain ⟨prev, packet, noted, header, hopen, hext, hcsId, hlength, hresults⟩ :=
    parseStream_results hr
  obtain rfl : prev = h.prev b := (openPacket_length hopen).1
  exact ⟨packet, header, ⟨hb, hopen, ⟨noted, hext, hcsId⟩, hlength⟩, hresults⟩

/-- A pass that waits has changed nothing, or noted the packet and the header of its stream. -/
theorem attempt_wait (hw : h.attempt = .wait s) : s = h.context ∨
    ∃ b packet header t, h.Pass b packet header ∧
      StreamPass.Results (h.prev b) packet header h.context.inChunkSize (.more t) ∧
      s = h.context.setStream b.csId t := by
  have hcases := h.attempt_cases
  cases hb : h.chunk with
  | none =>
      rw [hb, hw] at hcases
      rcases hcases with hsame | ⟨e, -, hfail⟩
      · exact .inl (Attempt.wait.inj hsame)
      · exact absurd hfail nofun
  | some b =>
      rw [hb, hw] at hcases
      dsimp only at hcases
      cases hr : parseStream (h.stream b) b.fmt b.csId h.context.inChunkSize (h.fields b)
          (uint32 (h.totalBytes - b.parsed)) with
      | error e =>
          rw [hr] at hcases
          exact absurd hcases nofun
      | ok r =>
          obtain ⟨packet, header, hpass, hresults⟩ := pass_of_results hb hr
          rw [hr] at hcases
          cases r with
          | more t => exact .inr ⟨b, packet, header, t, hpass, hresults, Attempt.wait.inj hcases⟩
          | chunk t parsed done =>
              cases done with
              | none => exact absurd hcases nofun
              | some done => exact absurd hcases nofun

/-- A pass that goes on has taken a chunk, and with the last one the message. -/
theorem attempt_take (ht : h.attempt = .take s n out) :
    ∃ b packet header t parsed done, h.Pass b packet header ∧
      StreamPass.Results (h.prev b) packet header h.context.inChunkSize (.chunk t parsed done) ∧
      n = b.parsed + parsed ∧ out = done.toList ∧
      s = done.elim (h.context.setStream b.csId t) (h.context.setStream b.csId t).messageComplete := by
  have hcases := h.attempt_cases
  cases hb : h.chunk with
  | none =>
      rw [hb, ht] at hcases
      rcases hcases with hsame | ⟨e, -, hfail⟩
      · exact absurd hsame nofun
      · exact absurd hfail nofun
  | some b =>
      rw [hb, ht] at hcases
      dsimp only at hcases
      cases hr : parseStream (h.stream b) b.fmt b.csId h.context.inChunkSize (h.fields b)
          (uint32 (h.totalBytes - b.parsed)) with
      | error e =>
          rw [hr] at hcases
          exact absurd hcases nofun
      | ok r =>
          obtain ⟨packet, header, hpass, hresults⟩ := pass_of_results hb hr
          rw [hr] at hcases
          cases r with
          | more t => exact absurd hcases nofun
          | chunk t parsed done =>
              refine ⟨b, packet, header, t, parsed, done, hpass, hresults, ?_⟩
              cases done with
              | none =>
                  obtain ⟨rfl, rfl, rfl⟩ := Attempt.take.inj hcases
                  exact ⟨rfl, rfl, rfl⟩
              | some done =>
                  obtain ⟨rfl, rfl, rfl⟩ := Attempt.take.inj hcases
                  exact ⟨rfl, rfl, rfl⟩

theorem take_progress (ht : h.attempt = .take s n out) : 0 < n ∧ 0 < h.unread.length := by
  obtain ⟨b, packet, header, t, parsed, done, hpass, -, rfl, -⟩ := attempt_take ht
  obtain ⟨hparsed, hpos⟩ := basicHeader_inside (chunk_basic hpass.chunk)
  exact ⟨by omega, hpos⟩

/-- The head behind a chunk that is taken. -/
def next (h : LoopHead) : LoopHead :=
  match h.attempt with
  | .take s n _ => h.behind s n
  | _ => h

/-- The messages the pass completes. -/
def messages (h : LoopHead) : List Packet :=
  match h.attempt with
  | .take _ _ out => out
  | _ => []

theorem attempt_of_messages (hmessages : h.messages ≠ []) :
    ∃ s n, h.attempt = .take s n h.messages ∧ h.next = h.behind s n := by
  unfold messages at hmessages ⊢
  unfold next
  cases hattempt : h.attempt with
  | wait s =>
      rw [hattempt] at hmessages
      exact absurd rfl hmessages
  | fail e =>
      rw [hattempt] at hmessages
      exact absurd rfl hmessages
  | take s n out => exact ⟨s, n, rfl, rfl⟩

theorem behind_shorter (ht : h.attempt = .take s n out) :
    (h.behind s n).unread.length < h.unread.length := by
  obtain ⟨hn, hpos⟩ := take_progress ht
  change (h.unread.drop n).length < _
  rw [List.length_drop]
  omega

end LoopHead

theorem parseLoop_head (h : LoopHead) (fuel : Nat) :
    parseLoop (fuel + 1) h.context h.unread h.totalBytes =
      match h.attempt with
      | .wait s => ⟨[], .ok (s, h.unread)⟩
      | .fail e => ⟨[], .error e⟩
      | .take s n out => (parseLoop fuel (h.behind s n).context (h.behind s n).unread
          (h.behind s n).totalBytes).prepend out := by
  unfold LoopHead.attempt
  rw [parseLoop]
  split
  · rfl
  · rfl

theorem LoopHead.Leads.fin {h g : LoopHead} (hlead : h.Leads g) {fuel : Nat}
    (hfuel : h.unread.length < fuel) :
    ∃ fuel', g.unread.length < fuel' ∧ (parseLoop fuel h.context h.unread h.totalBytes).fin =
      (parseLoop fuel' g.context g.unread g.totalBytes).fin := by
  induction hlead with
  | refl => exact ⟨fuel, hfuel, rfl⟩
  | tail _ hstep ih =>
      obtain ⟨s, n, out, ht, rfl⟩ := hstep
      obtain ⟨fuel', hlt, hfin⟩ := ih
      obtain ⟨less, rfl⟩ : ∃ less, fuel' = less + 1 := ⟨fuel' - 1, by omega⟩
      have hshorter := LoopHead.behind_shorter ht
      refine ⟨less, by omega, ?_⟩
      rw [hfin, parseLoop_head, ht]
      rfl

section Call
variable {s s' : RtmpIn} {buf : List UInt8} {g : LoopHead}

theorem parseMessage_head (hlead : (LoopHead.enter s buf).Leads g) : ∃ fuel,
    (parseMessage s buf).fin = (parseLoop (fuel + 1) g.context g.unread g.totalBytes).fin := by
  obtain ⟨fuel, hlt, hfin⟩ := hlead.fin (Nat.lt_succ_self buf.length)
  obtain ⟨less, rfl⟩ : ∃ less, fuel = less + 1 := ⟨fuel - 1, by omega⟩
  exact ⟨less, hfin⟩

theorem parseMessage_waits (hlead : (LoopHead.enter s buf).Leads g) (hw : g.attempt = .wait s') :
    (parseMessage s buf).fin = .ok (s', g.unread) := by
  obtain ⟨fuel, hfin⟩ := parseMessage_head hlead
  rw [hfin, parseLoop_head, hw]

theorem parseMessage_fails {e : Fault} (hlead : (LoopHead.enter s buf).Leads g)
    (he : g.attempt = .fail e) : (parseMessage s buf).fin = .error e := by
  obtain ⟨fuel, hfin⟩ := parseMessage_head hlead
  rw [hfin, parseLoop_head, he]

/-- Every call comes to a head where it waits or fails, by induction on the bytes unread. -/
theorem parseMessage_ends (s : RtmpIn) (buf : List UInt8) :
    ∃ g, (LoopHead.enter s buf).Leads g ∧
      ((∃ s', g.attempt = .wait s') ∨ ∃ e, g.attempt = .fail e) := by
  suffices hend : ∀ (n : Nat) (h : LoopHead), h.unread.length = n → (LoopHead.enter s buf).Leads h →
      ∃ g, (LoopHead.enter s buf).Leads g ∧
        ((∃ s', g.attempt = .wait s') ∨ ∃ e, g.attempt = .fail e) from
    hend _ (.enter s buf) rfl .refl
  intro n
  induction n using Nat.strongRecOn with
  | ind n ih =>
      intro h hn hlead
      cases hattempt : h.attempt with
      | wait s' => exact ⟨h, hlead, .inl ⟨s', hattempt⟩⟩
      | fail e => exact ⟨h, hlead, .inr ⟨e, hattempt⟩⟩
      | take s' k out =>
          have hshorter := LoopHead.behind_shorter hattempt
          exact ih _ (by omega) (h.behind s' k) rfl (hlead.tail ⟨s', k, out, hattempt, rfl⟩)

end Call

/-! ## The state of a receiver -/

/-- An open packet of a chunk stream. -/
structure Packet.Open (packet : Packet) (csid : UInt32) : Prop extends packet.Bounded where
  ext : ∃ header, packet.ext = some header ∧ header.csId = csid

/-- What the maps hold for a chunk stream, after any bytes a peer may have sent. -/
structure InStream.Sound (t : InStream) (csid : UInt32) : Prop where
  packet : ∀ packet, t.packet = some packet → packet.Open csid
  length : (t.header.getD {}).msgLen.toNat < 2 ^ 24

def RtmpIn.Sound (s : RtmpIn) : Prop := ∀ csid, (s.stream csid).Sound csid

theorem sound_initial : ({} : RtmpIn).Sound :=
  fun _ => ⟨fun _ h => absurd h nofun, Nat.two_pow_pos 24⟩

theorem RtmpIn.Sound.setStream {s : RtmpIn} (h : s.Sound) {csid : UInt32} {t : InStream}
    (ht : t.Sound csid) : (s.setStream csid t).Sound := by
  intro c
  by_cases hc : c = csid
  · subst hc
    rw [RtmpIn.stream_setStream]
    exact ht
  · rw [RtmpIn.stream_setStream_ne s t hc]
    exact h c

@[simp] theorem RtmpIn.messageComplete_stream (s : RtmpIn) (packet : Packet) (c : UInt32) :
    (s.messageComplete packet).stream c = s.stream c := by
  unfold RtmpIn.messageComplete RtmpIn.handleChunkSize
  split
  · split
    · rfl
    · rfl
  · rfl

theorem RtmpIn.Sound.messageComplete {s : RtmpIn} (h : s.Sound) (packet : Packet) :
    (s.messageComplete packet).Sound := by
  intro c
  rw [RtmpIn.messageComplete_stream]
  exact h c

theorem readUint24T_lt {p : List UInt8} {off : Nat} {v : UInt32} (h : readUint24T p off = .ok v) :
    v.toNat < 2 ^ 24 := by
  unfold readUint24T at h
  obtain ⟨bytes, hbytes, h⟩ := of_bind_ok h
  obtain ⟨hin, rfl⟩ := readBytes_ok hbytes
  obtain rfl := Except.ok.inj h
  have hlen : ((p.drop off).take 3).length = 3 := by
    rw [List.length_take, List.length_drop]
    omega
  have hlt := beValue_lt ((p.drop off).take 3)
  rw [hlen] at hlt
  rw [UInt32.toNat_ofNat']
  omega

theorem declaredLength_lt {fmt : RtmpFmt} {p : List UInt8} {len : UInt32}
    (h : declaredLength fmt p = some len) : len.toNat < 2 ^ 24 := by
  unfold declaredLength at h
  split at h
  · exact readUint24T_lt (ok_of_toOption h)
  · exact absurd h nofun

namespace LoopHead
variable {h : LoopHead} {b : BasicHeader} {packet : Packet} {header : RtmpMsgHeader}

theorem Pass.open (hp : h.Pass b packet header) (hs : h.context.Sound) :
    packet.Open b.csId ∧ header.csId = b.csId := by
  have hlength := (openPacket_length hp.opened).2
  obtain ⟨noted, hext, hcsId⟩ := hp.noted
  suffices hopen : packet.Open b.csId by
    refine ⟨hopen, ?_⟩
    obtain ⟨header', hext', hcsId'⟩ := hopen.ext
    rw [hext] at hext'
    rw [hcsId, Option.some.inj hext', hcsId']
  cases hpacket : (h.stream b).packet with
  | some open' =>
      rw [hpacket] at hlength
      obtain rfl : packet = open' := hlength
      exact (hs b.csId).packet packet hpacket
  | none =>
      rw [hpacket] at hlength
      obtain ⟨hnew, hpacket'⟩ := hlength
      have hdata : packet.data = [] := congrArg Packet.data hpacket'
      refine ⟨⟨?_, (newPacket_bounded hnew).small⟩, _, congrArg Packet.ext hpacket', rfl⟩
      rw [hdata]
      exact Nat.zero_le _

theorem Pass.length_lt (hp : h.Pass b packet header) (hs : h.context.Sound) :
    header.msgLen.toNat < 2 ^ 24 := by
  rw [hp.length]
  cases hdeclared : declaredLength b.fmt (h.fields b) with
  | some len => exact declaredLength_lt hdeclared
  | none => exact (hs b.csId).length

/-- What a pass makes of its stream is sound. -/
theorem Pass.results_sound (hp : h.Pass b packet header) (hs : h.context.Sound) {r : StreamPass}
    (hr : StreamPass.Results (h.prev b) packet header h.context.inChunkSize r) :
    match r with
    | .more t => t.Sound b.csId
    | .chunk t _ _ => t.Sound b.csId := by
  obtain ⟨hopen, hcsId⟩ := hp.open hs
  cases hr with
  | more delta ext =>
      refine ⟨?_, (hs b.csId).length⟩
      intro open' hopen'
      obtain rfl := Option.some.inj hopen'
      exact ⟨hopen.toBounded.setExt header, header, rfl, hcsId⟩
  | part delta ext parsed body hlen hfits hleft =>
      refine ⟨?_, hp.length_lt hs⟩
      intro open' hopen'
      obtain rfl := Option.some.inj hopen'
      exact ⟨⟨by dsimp only; rw [List.length_append]; exact hfits, hopen.small⟩, header, rfl, hcsId⟩
  | whole delta ext parsed body hlen hfits hleft => exact ⟨nofun, hp.length_lt hs⟩

theorem wait_sound {s : RtmpIn} (hs : h.context.Sound) (hw : h.attempt = .wait s) : s.Sound := by
  rcases attempt_wait hw with rfl | ⟨b, packet, header, t, hpass, hr, rfl⟩
  · exact hs
  · exact hs.setStream (hpass.results_sound hs hr)

theorem take_sound {s : RtmpIn} {n : Nat} {out : List Packet} (hs : h.context.Sound)
    (ht : h.attempt = .take s n out) : s.Sound := by
  obtain ⟨b, packet, header, t, parsed, done, hpass, hr, -, -, rfl⟩ := attempt_take ht
  have hset := hs.setStream (hpass.results_sound hs hr)
  cases done with
  | none => exact hset
  | some done => exact hset.messageComplete done

end LoopHead

theorem LoopRun.sound {past : List LoopHead} {h : LoopHead} (hrun : LoopRun past h) :
    h.context.Sound := by
  induction hrun with
  | start piece => exact sound_initial
  | pass _ ht ih => exact LoopHead.take_sound ih ht
  | call piece _ hw ih => exact LoopHead.wait_sound ih hw

end TmmsServer
