import TmmsServer.Rtmp.ChunkSizeAgreement

/-!
# Messages from context to context

A sender with its output queue and its connection, the bytes on their way, and a
receiver: in whatever pieces the socket takes the bytes and the peer reads them, the
messages pushed are completed in push order, each once.
-/
namespace TmmsServer
open Lib.Words Lib.Gather Lib.Feed

/-- One direction of a connection; `read` bytes of the wire were read, and `buffer` holds those not yet parsed. -/
structure MessageLink where
  sender : Outbound := {}
  read : Nat := 0
  receiver : RtmpIn := {}
  buffer : List UInt8 := []
  messages : List Packet := []

inductive LinkAction where
  | out (e : OutEvent)
  /-- The receiver reads at most `n` bytes and calls `ParseMessage`. -/
  | onRead (n : Nat)

namespace LinkAction

def events : LinkAction → List OutEvent
  | .out e => [e]
  | .onRead _ => []

end LinkAction

namespace MessageLink

def onRead (link : MessageLink) (n : Nat) : Checked MessageLink := do
  let piece := RtmpPair.arriving link.sender.wire link.read n
  let reading := parseMessage link.receiver (link.buffer ++ piece)
  let (receiver, buffer) ← reading.fin
  return { link with receiver, buffer, read := link.read + piece.length, messages := link.messages ++ reading.out }

def step (link : MessageLink) : LinkAction → Checked MessageLink
  | .out e => do
      let sender ← link.sender.step e
      return { link with sender }
  | .onRead n => link.onRead n

def run (link : MessageLink) (actions : List LinkAction) : Checked MessageLink := actions.foldlM step link

end MessageLink

/-- Two contexts between messages: nothing is queued, and their histories agree. -/
structure AtRest (ctx : RtmpOut) (receiver : RtmpIn) : Prop where
  idle : ctx.Idle
  links : ∀ csid, Linked (ctx.stream csid) false (receiver.stream csid)
  chunkSize : receiver.inChunkSize = 4096

/-! ## What one message takes -/

theorem basicHeaderBytes_le (fmt : RtmpFmt) (csId : UInt32) : (basicHeaderBytes fmt csId).length ≤ 3 := by
  unfold basicHeaderBytes
  split
  · exact Nat.le_add_left 1 2
  · split
    · exact Nat.le_succ 2
    · rw [List.length_cons, BytesWriter.copyUint16, leBytes_length]

theorem extendedTimestamp_le (timestamp : UInt32) : (extendedTimestamp timestamp).length ≤ 4 := by
  unfold extendedTimestamp
  split
  · rw [BytesWriter.copyUint32, leBytes_length]
  · exact Nat.zero_le 4

theorem headerNeed_le (o : OutStream) (header : RtmpMsgHeader) (timestamp : UInt32) (fmt0 : Bool) :
    o.headerNeed header timestamp fmt0 ≤ 18 + 7 * continuations header.msgLen.toNat := by
  unfold OutStream.headerNeed
  generalize o.choose header timestamp fmt0 = c
  have hbasic := basicHeaderBytes_le c.fmt header.csId
  have hbasic₃ := basicHeaderBytes_le .fmt3 header.csId
  have hextended := extendedTimestamp_le c.timestamp
  have heleven : c.fmt.fieldBytes ≤ 11 := by cases c.fmt <;> decide
  refine Nat.add_le_add ?_ (Nat.mul_le_mul_right _ ?_)
  · rw [firstHeader, List.length_append, List.length_append, headerFields_length]
    omega
  · rw [nextHeader, List.length_append]
    omega

/-- No message takes more bytes on the wire. -/
def messageBound : Nat := 2 ^ 25

theorem encode_le {h : OutHistory} {packet : Packet} (hp : Plain packet 0) :
    (h.encode packet).length ≤ messageBound := by
  obtain ⟨header, hext, -, -, hlen, -, hlt, -⟩ := hp.message
  have hneed := headerNeed_le (h header.csId) header 0 false
  have hencode : (h.encode packet).length = (h header.csId).headerNeed header 0 false + packet.data.length := by
    rw [OutHistory.encode, hext]
    exact OutStream.encode_length _ 0 false hlen
  have hfew : continuations header.msgLen.toNat ≤ 4096 := by
    unfold continuations
    omega
  rw [hencode, messageBound]
  omega

theorem Plain.ready {packet : Packet} (hp : Plain packet 0) : ∃ header, packet.Ready header := by
  obtain ⟨header, hext, -, -, hlen, hpos, -, -⟩ := hp.message
  exact ⟨header, hext, hlen, hlen ▸ hpos⟩

/-- One more message is one more row for a receiver whose history agrees. -/
theorem takes_plain {h : OutHistory} {r : RtmpIn} {packet : Packet} (hp : Plain packet 0)
    (hlinks : ∀ csid, Linked (h csid) false (r.stream csid)) (hk : r.inChunkSize = 4096) :
    ∃ r', Takes parseStep messageBound r (h.encode packet) r' [packet.asReceived] ∧
      (∀ csid, Linked (h.next packet csid) false (r'.stream csid)) ∧ r'.inChunkSize = 4096 := by
  obtain ⟨header, hs⟩ := hp.sendable
  have hshort := choose_short (h header.csId) header false hp.timestamp_lt
  have hsurv : Survives (h header.csId) false header 0 false := by
    unfold Survives
    rw [if_neg (by rw [hshort]; exact Bool.false_ne_true)]
    exact fun hno => Bool.false_ne_true hno.2
  obtain ⟨t, htakes, hlink⟩ := hsurv.step hs hk (hlinks header.csId)
  rw [hshort] at hlink
  have hencode : h.encode packet = (h header.csId).encode header packet.data 0 false := by
    rw [OutHistory.encode, hs.ext]
  have hitem : packet.asReceived = .received { header with timestamp := 0 } packet.data := by
    rw [Packet.asReceived, hs.ext]
  rw [← hencode, ← hitem] at htakes
  exact ⟨r.setStream header.csId t, htakes.tight (encode_le hp), linked_setStream hs.ext hlinks hlink, hk⟩

/-! ## The stream of messages -/

/-- A link on which `pushed` went out, from a sender with the history `h₀`. -/
structure Streaming (h₀ : OutHistory) (pushed : List Packet) (link : MessageLink) : Prop where
  sender : Accounted h₀ pushed link.sender
  read_le : link.read ≤ link.sender.wire.length
  buffer_le : link.buffer.length ≤ messageBound
  waiting : parseStep link.receiver link.buffer = .wait link.receiver
  row : ∃ fin todo, pushed.map Packet.asReceived = link.messages ++ todo ∧
    Takes parseStep messageBound link.receiver (link.buffer ++ (h₀.encodeAll pushed).drop link.read) fin todo ∧
    (∀ csid, Linked (h₀.nextAll pushed csid) false (fin.stream csid)) ∧ fin.inChunkSize = 4096

namespace Streaming
variable {h₀ : OutHistory} {pushed : List Packet} {link : MessageLink}

theorem init {ctx : RtmpOut} {receiver : RtmpIn} (h : AtRest ctx receiver) :
    Streaming ctx.stream [] { sender := { ctx }, receiver } where
  sender := accounted_idle h.idle
  read_le := Nat.le_refl 0
  buffer_le := Nat.zero_le _
  waiting := parseChunk_resumable.empty_wait receiver
  row := ⟨receiver, [], rfl, .nil receiver, h.links, h.chunkSize⟩

theorem wire_prefix (h : Streaming h₀ pushed link) : link.sender.wire <+: h₀.encodeAll pushed :=
  h.sender.disciplined.wire

theorem sends (h : Streaming h₀ pushed link) {o : Outbound} (ho : Accounted h₀ pushed o)
    (hwire : link.sender.wire <+: o.wire) : Streaming h₀ pushed { link with sender := o } where
  sender := ho
  read_le := Nat.le_trans h.read_le hwire.length_le
  buffer_le := h.buffer_le
  waiting := h.waiting
  row := h.row

/-- There is one more message to receive. -/
theorem push (h : Streaming h₀ pushed link) {packet : Packet} (hp : Plain packet 0) {o : Outbound}
    (ho : Accounted h₀ (pushed ++ [packet]) o) (hwire : link.sender.wire <+: o.wire) :
    Streaming h₀ (pushed ++ [packet]) { link with sender := o } where
  sender := ho
  read_le := Nat.le_trans h.read_le hwire.length_le
  buffer_le := h.buffer_le
  waiting := h.waiting
  row := by
    obtain ⟨fin, todo, hsplit, htakes, hlinks, hk⟩ := h.row
    obtain ⟨fin', hnext, hlinks', hk'⟩ := takes_plain hp hlinks hk
    have hmore : h₀.encodeAll (pushed ++ [packet]) = h₀.encodeAll pushed ++ (h₀.nextAll pushed).encode packet := by
      rw [OutHistory.encodeAll_append]
      exact congrArg _ (List.append_nil _)
    have hread : link.read ≤ (h₀.encodeAll pushed).length := Nat.le_trans h.read_le h.wire_prefix.length_le
    refine ⟨fin', todo ++ [packet.asReceived], ?_, ?_, ?_, hk'⟩
    · rw [List.map_append, hsplit, List.append_assoc]
      rfl
    · rw [hmore, List.drop_append_of_le_length hread, ← List.append_assoc]
      exact htakes.append hnext
    · intro csid
      rw [OutHistory.nextAll_append]
      exact hlinks' csid

theorem arriving_append (h : Streaming h₀ pushed link) (n : Nat) :
    RtmpPair.arriving link.sender.wire link.read n ++ (h₀.encodeAll pushed).drop
      (link.read + (RtmpPair.arriving link.sender.wire link.read n).length) = (h₀.encodeAll pushed).drop link.read := by
  obtain ⟨rest, hrest⟩ := h.wire_prefix
  have hread := h.read_le
  unfold RtmpPair.arriving
  rw [← List.drop_drop, ← hrest, List.drop_append_of_le_length hread]
  generalize link.sender.wire.drop link.read = wire
  rw [List.length_take, List.drop_append_of_le_length (Nat.min_le_right _ _), ← List.append_assoc]
  congr 1
  rcases Nat.le_total n wire.length with hle | hle
  · rw [Nat.min_eq_left hle, List.take_append_drop]
  · rw [Nat.min_eq_right hle, List.take_of_length_le hle, List.drop_length, List.append_nil]

/-- Whatever the receiver reads next is parsed without error. -/
theorem onRead (h : Streaming h₀ pushed link) {n : Nat} (hn : n < 2 ^ 30) :
    ∃ link', link.onRead n = .ok link' ∧ Streaming h₀ pushed link' := by
  obtain ⟨fin, todo, hsplit, htakes, hlinks, hk⟩ := h.row
  have harriving := h.arriving_append n
  have hpiece : (RtmpPair.arriving link.sender.wire link.read n).length ≤
      min n (link.sender.wire.length - link.read) := by
    rw [RtmpPair.arriving, List.length_take, List.length_drop]
  have hle := h.read_le
  have hbuffer : link.buffer.length ≤ 2 ^ 25 := h.buffer_le
  unfold MessageLink.onRead
  dsimp only
  generalize RtmpPair.arriving link.sender.wire link.read n = piece at harriving hpiece ⊢
  have hN : (link.buffer ++ piece).length < 2 ^ 31 := by
    rw [List.length_append]
    omega
  rw [← harriving, ← List.append_assoc] at htakes
  obtain ⟨receiver, buffer, out, todo', hdrain, hrest, rfl⟩ :=
    drain_takes_within parseChunk_resumable (show messageBound ≤ 2 ^ 31 - 1 by decide) (Nat.le_sub_one_of_lt hN) htakes
  obtain ⟨hshort, hwait⟩ := drain_settled parseChunk_resumable (Nat.le_sub_one_of_lt hN)
    (show (drain parseStep link.receiver (link.buffer ++ piece)).fin = .ok (receiver, buffer) by rw [hdrain])
  have hleft := hrest.waiting parseChunk_resumable (Nat.le_trans hshort (Nat.le_sub_one_of_lt hN)) hwait
  rw [parseMessage_eq_drain _ _ hN, hdrain, ok_bind]
  refine ⟨_, rfl, h.sender, ?_, hleft.1, hwait, fin, todo', ?_, hrest, hlinks, hk⟩
  · dsimp only
    omega
  · rw [hsplit, List.append_assoc]

/-- When everything was sent and read, everything has been received, and the contexts are at rest. -/
theorem complete (h : Streaming h₀ pushed link) (hidle : link.sender.ctx.sending = false)
    (hread : link.read = link.sender.wire.length) :
    link.messages = pushed.map Packet.asReceived ∧ link.buffer = [] ∧
      AtRest link.sender.ctx link.receiver := by
  obtain ⟨fin, todo, hsplit, htakes, hlinks, hk⟩ := h.row
  obtain ⟨built, pending, rfl, hstream, hpending, hwire⟩ := h.sender.bytes
  obtain ⟨hctx, hdrained⟩ := h.sender.idle hidle
  rw [hdrained] at hpending
  rw [hpending.nil_eq, List.append_nil] at hwire
  rw [hctx.queue, List.append_nil] at htakes hsplit hlinks ⊢
  rw [hread, hwire, List.drop_length] at htakes
  have hbuffer : link.buffer.length ≤ 2 ^ 31 - 1 := Nat.le_trans h.buffer_le (by decide)
  obtain ⟨hnone, rfl, rfl⟩ := (htakes.waiting parseChunk_resumable hbuffer h.waiting).2 rfl
  rw [List.append_nil] at hsplit
  refine ⟨hsplit.symm, hnone, hctx, fun csid => ?_, hk⟩
  rw [hstream]
  exact hlinks csid

end Streaming

section Link
variable {h₀ : OutHistory} {pushed : List Packet} {link : MessageLink}

end Link
end TmmsServer
