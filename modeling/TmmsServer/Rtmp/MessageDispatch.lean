import TmmsServer.Rtmp.ChunkReader
import TmmsServer.Rtmp.Command

/-!
# The dispatch of completed messages

`MessageComplete` with its handlers, and the connection of an `RtmpServer` from
the bytes that arrive to the calls of the handler. The chunk parser has seen to
`HandleChunkSize` already.
-/
namespace TmmsServer
open Lib.Feed BytesReader

/-- The type of an event, if it is one of those the switch names. -/
def RtmpEventType.ofCode (code : UInt16) : Option RtmpEventType :=
  [streamBegin, streamEOF, streamDry, setBufferLength, streamsRecorded, pingRequest, pingResponse].find?
    (·.code = code)

namespace CommandContext

def handleAckWindowSize (ctx : CommandContext) (packet : Packet) : Checked CommandContext :=
  if 4 ≤ packet.packetSize then do
    let size ← readUint32T packet.data 0
    return { ctx with ackSize := size.toInt32 }
  else .ok ctx

/-- Only a ping is answered; the others go to the log. -/
def handleUserMessage (ctx : CommandContext) (packet : Packet) : Checked CommandContext :=
  if packet.packetSize < 6 then .ok ctx
  else do
    let type ← readUint16T packet.data 0
    let value ← readUint32T packet.data 2
    match RtmpEventType.ofCode type with
    | some .pingRequest => ctx.sendUserCtrlMessage .pingResponse value 0
    | _ => return ctx

end CommandContext

/-- `SetPacketType`: four tests, one after the other. -/
def setPacketType (packet : Packet) : Packet :=
  let packet := if packet.type = kRtmpMsgTypeAudio.toNat then { packet with type := kPacketTypeAudio } else packet
  let packet := if packet.type = kRtmpMsgTypeVideo.toNat then { packet with type := kPacketTypeVideo } else packet
  let packet := if packet.type = kRtmpMsgTypeAMFMeta.toNat then { packet with type := kPacketTypeMeta } else packet
  if packet.type = kRtmpMsgTypeAMF3Meta.toNat then { packet with type := kPacketTypeMeta3 } else packet

/-- A context as far as completed messages go, with the packets `OnRecv` was called with. -/
structure MessageContext where
  commands : CommandContext := {}
  received : List Packet := []

namespace MessageContext
variable [Host]

/-- A command handler or a control handler ran. -/
def andCommands (ctx : MessageContext) (commands : Checked CommandContext) :
    Checked MessageContext := do
  let commands ← commands
  return { ctx with commands }

/-- `if (rtmp_handler_)` and `OnRecv`. -/
def onRecv (ctx : MessageContext) (packet : Packet) : MessageContext :=
  if ctx.commands.hasHandler then { ctx with received := ctx.received ++ [packet] } else ctx

def messageComplete (ctx : MessageContext) (data : Packet) : Checked MessageContext :=
  if data.type = kRtmpMsgTypeChunkSize.toNat then .ok ctx
  else if data.type = kRtmpMsgTypeBytesRead.toNat then .ok ctx
  else if data.type = kRtmpMsgTypeUserControl.toNat then ctx.andCommands (ctx.commands.handleUserMessage data)
  else if data.type = kRtmpMsgTypeWindowACKSize.toNat then ctx.andCommands (ctx.commands.handleAckWindowSize data)
  else if data.type = kRtmpMsgTypeAMFMessage.toNat then ctx.andCommands (ctx.commands.handleAmfCommand data.data false)
  else if data.type = kRtmpMsgTypeAMF3Message.toNat then ctx.andCommands (ctx.commands.handleAmfCommand data.data true)
  else if data.type = kRtmpMsgTypeAMFMeta.toNat ∨ data.type = kRtmpMsgTypeAMF3Meta.toNat ∨
      data.type = kRtmpMsgTypeAudio.toNat ∨ data.type = kRtmpMsgTypeVideo.toNat then
    .ok (ctx.onRecv (setPacketType data))
  else .ok ctx

end MessageContext

/-- A connection in `kRtmpMessage`, with the messages completed on it and the fault that ended it. -/
structure MessageSession where
  inn : RtmpIn := {}
  buf : List UInt8 := []
  ctx : MessageContext
  completed : List Packet := []
  fault : Option Fault := none

namespace MessageSession
variable [Host]

def complete (s : MessageSession) (packet : Packet) : MessageSession :=
  if s.fault.isSome then s
  else
    match s.ctx.messageComplete packet with
    | .ok ctx => { s with ctx, completed := s.completed ++ [packet] }
    | .error e => { s with completed := s.completed ++ [packet], fault := some e }

/-- The parser stopped. -/
def stop (s : MessageSession) (fin : Except Fault (RtmpIn × List UInt8)) : MessageSession :=
  if s.fault.isSome then s
  else
    match fin with
    | .ok (inn, buf) => { s with inn, buf }
    | .error e => { s with fault := some e }

/-- `OnMessage`: the new bytes are parsed, and the messages among them completed. -/
def onMessage (s : MessageSession) (piece : List UInt8) : MessageSession :=
  if s.fault.isSome then s
  else
    let r := parseMessage s.inn (s.buf ++ piece)
    (r.out.foldl complete s).stop r.fin

def run (s : MessageSession) (pieces : List (List UInt8)) : MessageSession :=
  pieces.foldl onMessage s

end MessageSession

structure RtmpServer where
  /-- `rtmp_handler_` is no null pointer. -/
  hasHandler : Bool := true

/-- `OnNewConnection`, after the handshake: the context is made with `nullptr` for a handler. -/
def RtmpServer.onNewConnection (_server : RtmpServer) : MessageSession where
  ctx := { commands := { hasHandler := false } }

end TmmsServer
