import TmmsServer.Rtmp.ChunkSizes
import TmmsServer.Rtmp.MessageDispatch
import TmmsServer.Rtmp.Transactions

/-!
# A client and a server

Two contexts in `kRtmpMessage`, joined by two byte channels. What a socket has
accepted arrives at the other side in order, in pieces of any length and at any
time. Nothing but the contexts pushes packets: `RtmpClient::Send` is empty, and
no handler has access to the queue.
-/
namespace TmmsServer
open Lib.Feed

/-- `SendBytesRecv`, with `in_bytes_` before and after. -/
def CommandContext.sendBytesRecv (ctx : CommandContext) (inBytes : Int32) :
    Checked (CommandContext × Int32) :=
  if ctx.ackSize ≤ inBytes then do
    let ctx ← ctx.sendMessage (newMessage 64 (controlHeader kRtmpMsgTypeBytesRead)
      (BytesWriter.writeUint32T inBytes.toUInt32))
    return (ctx, 0)
  else return (ctx, inBytes)

/-- The body lengths `ParseMessage` takes from the readable bytes, chunk by chunk. -/
def chunkBodies (s : RtmpIn) (buf : List UInt8) : List Int :=
  (drain (noted bodyLength parseStep) s buf).out.map Prod.fst

/-- A context past the handshake. Observed are the messages it completed, the body lengths of the
chunks it parsed and the packets it pushed. -/
structure RtmpPeer where
  inn : RtmpIn := {}
  buf : List UInt8 := []
  ctx : MessageContext
  inBytes : Int32 := 0
  lastLeft : Int32 := 0
  completed : List Packet := []
  bodies : List Int := []
  pushed : List Packet := []

namespace RtmpPeer

/-- What the socket has accepted. -/
def wire (p : RtmpPeer) : List UInt8 := p.ctx.commands.out.wire

def onWrite (p : RtmpPeer) (results : List WriteResult) : Checked RtmpPeer := do
  let out ← p.ctx.commands.out.onWrite results
  return { p with ctx := { p.ctx with commands := { p.ctx.commands with out } } }

variable [Host]

/-- What new bytes make of the context: the acknowledgement comes first, if it is due, then the
messages completed. -/
def respond (p : RtmpPeer) (piece : List UInt8) (ctx : MessageContext) :
    Checked (MessageContext × Int32) := do
  let buf := p.buf ++ piece
  let (commands, inBytes) ← ctx.commands.sendBytesRecv (p.inBytes + (Int32.ofNat buf.length - p.lastLeft))
  let ctx ← (parseMessage p.inn buf).out.foldlM MessageContext.messageComplete { ctx with commands }
  return (ctx, inBytes)

/-- `Parse` on new bytes. -/
def parse (p : RtmpPeer) (piece : List UInt8) : Checked RtmpPeer := do
  let r := parseMessage p.inn (p.buf ++ piece)
  let (ctx, inBytes) ← p.respond piece p.ctx
  let (inn, buf) ← r.fin
  return {
    inn, buf, ctx, inBytes
    lastLeft := Int32.ofNat buf.length
    completed := p.completed ++ r.out
    bodies := p.bodies ++ chunkBodies p.inn (p.buf ++ piece)
    pushed := p.pushed ++
      pushedBy (fun commands => (p.respond piece { p.ctx with commands }).map (·.1.commands)) p.ctx.commands }

end RtmpPeer

structure RtmpClient where
  isPlayer : Bool
  url : List UInt8
  /-- `handler_` is no null pointer. -/
  hasHandler : Bool := true

namespace RtmpClient

/-- The context `OnConnection` makes. -/
def onConnection (client : RtmpClient) : CommandContext :=
  let ctx : CommandContext := { hasHandler := client.hasHandler }
  if client.isPlayer then ctx.play client.url else ctx.publish client.url

/-- The context as it enters `kRtmpMessage`: it sends its connect command. -/
def enter (client : RtmpClient) : Checked RtmpPeer := do
  let commands ← client.onConnection.sendConnect
  return { ctx := { commands }, pushed := pushedBy CommandContext.sendConnect client.onConnection }

/-- The bodies that depend on the URL fit their packets. -/
structure Fits (client : RtmpClient) : Prop where
  connect : ∃ packet, CommandContext.connectMessage client.onConnection.app client.onConnection.tcUrl = .ok packet
  stream : ∃ packet, (if client.isPlayer then CommandContext.playMessage client.onConnection.name
    else CommandContext.publishMessage client.onConnection.name) = .ok packet

end RtmpClient

/-- What the calls of `writev` gave in one turn, on a connection that is not lost. -/
abbrev WriteTurn := { results : List WriteResult // .failed ∉ results }

inductive PairStep where
  | clientWrites (turn : WriteTurn)
  | serverWrites (turn : WriteTurn)
  | clientReads (n : Nat)
  | serverReads (n : Nat)

/-- Both contexts, with the number of bytes that arrived at the server and at the client. -/
structure RtmpPair where
  client : RtmpPeer
  server : RtmpPeer
  toServer : Nat := 0
  toClient : Nat := 0

namespace RtmpPair

/-- The next bytes of a channel, at most `n`. -/
def arriving (wire : List UInt8) (delivered n : Nat) : List UInt8 := (wire.drop delivered).take n

def start (client : RtmpClient) (server : RtmpServer) : Checked RtmpPair := do
  let client ← client.enter
  return { client, server := { ctx := server.onNewConnection.ctx } }

variable [Host]

def step (pair : RtmpPair) : PairStep → Checked RtmpPair
  | .clientWrites turn => do
      let client ← pair.client.onWrite turn.1
      return { pair with client }
  | .serverWrites turn => do
      let server ← pair.server.onWrite turn.1
      return { pair with server }
  | .clientReads n => do
      let piece := arriving pair.server.wire pair.toClient n
      let client ← pair.client.parse piece
      return { pair with client, toClient := pair.toClient + piece.length }
  | .serverReads n => do
      let piece := arriving pair.client.wire pair.toServer n
      let server ← pair.server.parse piece
      return { pair with server, toServer := pair.toServer + piece.length }

def run (pair : RtmpPair) (steps : List PairStep) : Checked RtmpPair := steps.foldlM step pair

end RtmpPair

/-- A packet as a receiver completes it that is in step with the sender. -/
def Packet.asReceived (packet : Packet) : Packet :=
  match packet.ext with
  | some header => .received { header with timestamp := 0 } packet.data
  | none => packet

/-- What a receiver has seen of a sender: the chunks have the body lengths the sender gave them, and
the messages are those that were pushed, in order and without a gap. -/
structure ChunksAgree (sender receiver : RtmpPeer) : Prop where
  bodies : receiver.bodies <+: sender.pushed.flatMap fun packet => bodyLengths packet.data.length
  /-- `BuildChunk` gives them so, where `out_buffer_` has room for the headers. -/
  given : ∀ packet ∈ sender.pushed, ∀ header, packet.ext = some header → ∀ s s' : RtmpOut, ∀ sent,
    s.outCurrent + (s.stream header.csId).headerNeed header 0 false ≤ 4096 →
      s.buildChunk packet 0 false = .ok (s', sent) →
        s'.bodyLengths = s.bodyLengths ++ bodyLengths packet.data.length
  completed : receiver.completed <+: sender.pushed.map Packet.asReceived

end TmmsServer
