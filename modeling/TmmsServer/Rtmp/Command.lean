import TmmsServer.Base.StringUtils
import TmmsServer.Rtmp.Amf
import TmmsServer.Rtmp.OutQueue

/-!
# The command layer

`HandleAmfCommand`, the six handlers behind it and the messages they send.
-/
namespace TmmsServer
open StringUtils

namespace AMFAny

def encodeName (name : List UInt8) : List UInt8 :=
  BytesWriter.writeUint16T (UInt16.ofNat name.length) ++ name

/-- The bits of a double in network order. -/
def encodeNumber (bits : UInt64) : List UInt8 :=
  AMFDataType.number.code :: Lib.Words.beBytes 8 bits.toNat

def encodeString (str : List UInt8) : List UInt8 :=
  AMFDataType.string.code :: (BytesWriter.writeUint16T (UInt16.ofNat str.length) ++ str)

def encodeNamedNumber (name : List UInt8) (bits : UInt64) : List UInt8 :=
  encodeName name ++ encodeNumber bits

def encodeNamedString (name str : List UInt8) : List UInt8 := encodeName name ++ encodeString str

def encodeBoolean (b : Bool) : List UInt8 := [AMFDataType.boolean.code, if b then 1 else 0]

def encodeNamedBoolean (name : List UInt8) (b : Bool) : List UInt8 :=
  encodeName name ++ encodeBoolean b

end AMFAny

/-- A double that is a whole number. -/
abbrev whole (n : UInt64) : UInt64 := Lib.Double.ofUint64 n

def amfNull : List UInt8 := [AMFDataType.null.code]
def amfObject : List UInt8 := [AMFDataType.object.code]
def amfObjectEnd : List UInt8 := [0, 0, 9]

/-- A pointer that is used without a test. -/
def deref {α : Type} : Option α → Checked α
  | some a => .ok a
  | none => .error .nullDeref

theorem of_deref_ok {α : Type} {o : Option α} {a : α} (h : deref o = .ok a) : o = some a := by
  cases o with
  | none => exact absurd h nofun
  | some b => exact congrArg some (Except.ok.inj h)

/-- A new packet with its body written and its header set. -/
def newMessage (capacity : Nat) (header : RtmpMsgHeader) (body : List UInt8) : Checked Packet := do
  let packet ← Packet.newPacket capacity
  let packet ← packet.store body
  return packet.setExt { header with msgLen := UInt32.ofNat body.length }

/-- A message that does not fit runs over the end of its packet. -/
theorem newMessage_eq (capacity : Nat) (header : RtmpMsgHeader) (body : List UInt8) :
    newMessage capacity header body =
      if body.length ≤ capacity then
        .ok { capacity, data := body, ext := some { header with msgLen := UInt32.ofNat body.length } }
      else .error .outOfBounds := by
  rw [newMessage, Packet.newPacket_natCast, ok_bind, Packet.store, List.length_nil, Nat.zero_add,
    List.nil_append]
  change (if body.length ≤ capacity then _ else _) >>= _ = _
  split
  · rfl
  · rfl

def controlHeader (msgType : UInt8) : RtmpMsgHeader :=
  { csId := kRtmpCSIDCommand, msgType, msgSid := kRtmpMsID0 }

def commandHeader (msgSid : UInt32) : RtmpMsgHeader :=
  { csId := kRtmpCSIDAMFIni, msgType := kRtmpMsgTypeAMFMessage, msgSid }

inductive RtmpEventType where
  | streamBegin
  | streamEOF
  | streamDry
  | setBufferLength
  | streamsRecorded
  | pingRequest
  | pingResponse
  deriving DecidableEq, Repr

def RtmpEventType.code : RtmpEventType → UInt16
  | streamBegin => 0
  | streamEOF => 1
  | streamDry => 2
  | setBufferLength => 3
  | streamsRecorded => 4
  | pingRequest => 5
  | pingResponse => 6

/-- What the handler of the application was told. -/
inductive HandlerCall where
  | onPlay (sessionName param : List UInt8)
  | onPublish (sessionName param : List UInt8)
  | onPublishPrepare

/-- The fields of `RtmpContext` the commands use; `out` has the queue and the connection. -/
structure CommandContext where
  app : List UInt8 := []
  tcUrl : List UInt8 := []
  name : List UInt8 := []
  sessionName : List UInt8 := []
  param : List UInt8 := []
  isPlayer : Bool := false
  ackSize : Int32 := 2500000
  hasHandler : Bool := true
  out : Outbound := {}
  calls : List HandlerCall := []

namespace CommandContext

def pushOutQueue (ctx : CommandContext) (packet : Packet) : Checked CommandContext := do
  let out ← ctx.out.pushOutQueue packet
  return { ctx with out }

/-- Build a message and push it. -/
def sendMessage (ctx : CommandContext) (message : Checked Packet) : Checked CommandContext := do
  let packet ← message
  ctx.pushOutQueue packet

/-- `if (rtmp_handler_)` and the call. -/
def tell (ctx : CommandContext) (call : HandlerCall) : CommandContext :=
  if ctx.hasHandler then { ctx with calls := ctx.calls ++ [call] } else ctx

def sendSetChunkSize (ctx : CommandContext) : Checked CommandContext :=
  ctx.sendMessage (newMessage 64 (controlHeader kRtmpMsgTypeChunkSize)
    (BytesWriter.writeUint32T (UInt32.ofNat outChunkSize.toNat)))

def sendAckWindowsSize (ctx : CommandContext) : Checked CommandContext :=
  ctx.sendMessage (newMessage 64 (controlHeader kRtmpMsgTypeWindowACKSize)
    (BytesWriter.writeUint32T ctx.ackSize.toUInt32))

def sendSetPeerBandwidth (ctx : CommandContext) : Checked CommandContext :=
  ctx.sendMessage (newMessage 64 (controlHeader kRtmpMsgTypeSetPeerBW)
    (BytesWriter.writeUint32T ctx.ackSize.toUInt32 ++ [0x02]))

/-- The body of a user control message: every field is written at its start. -/
def userCtrlBody (type : RtmpEventType) (value1 value2 : UInt32) : Checked (List UInt8) := do
  let body ← writeBytes (List.replicate 64 0) 0 (BytesWriter.writeUint16T type.code)
  let body ← writeBytes body 0 (BytesWriter.writeUint32T value1)
  let body ←
    match type with
    | .setBufferLength => writeBytes body 0 (BytesWriter.writeUint32T value2)
    | _ => .ok body
  return body.take (if type = .setBufferLength then 10 else 6)

def sendUserCtrlMessage (ctx : CommandContext) (type : RtmpEventType) (value1 value2 : UInt32) :
    Checked CommandContext :=
  ctx.sendMessage (userCtrlBody type value1 value2 >>= newMessage 64 (controlHeader kRtmpMsgTypeUserControl))

def sendStatus (ctx : CommandContext) (level code description : List UInt8) :
    Checked CommandContext :=
  ctx.sendMessage (newMessage 1024 (commandHeader 1)
    (AMFAny.encodeString (text "onStatus") ++ (AMFAny.encodeNumber (whole 0) ++ (amfNull ++ (amfObject ++
      (AMFAny.encodeNamedString (text "level") level ++ (AMFAny.encodeNamedString (text "code") code ++
        (AMFAny.encodeNamedString (text "description") description ++ amfObjectEnd))))))))

def sendCreateStream (ctx : CommandContext) : Checked CommandContext :=
  ctx.sendMessage (newMessage 1024 (commandHeader 0)
    (AMFAny.encodeString (text "createStream") ++ (AMFAny.encodeNumber (whole 4) ++ amfNull)))

/-- The bits of -1000.0. -/
def startAnywhere : UInt64 := 0xC08F400000000000

def playMessage (name : List UInt8) : Checked Packet :=
  newMessage 1024 (commandHeader 1)
    (AMFAny.encodeString (text "play") ++ (AMFAny.encodeNumber (whole 0) ++ (amfNull ++
      (AMFAny.encodeString name ++ AMFAny.encodeNumber startAnywhere))))

def sendPlay (ctx : CommandContext) : Checked CommandContext :=
  ctx.sendMessage (playMessage ctx.name)

def publishMessage (name : List UInt8) : Checked Packet :=
  newMessage 1024 (commandHeader 1)
    (AMFAny.encodeString (text "publish") ++ (AMFAny.encodeNumber (whole 5) ++ (amfNull ++
      (AMFAny.encodeString name ++ AMFAny.encodeString (text "live")))))

def sendPublish (ctx : CommandContext) : Checked CommandContext :=
  ctx.sendMessage (publishMessage ctx.name)

def connectMessage (app tcUrl : List UInt8) : Checked Packet :=
  newMessage 1024 (commandHeader 0)
    (AMFAny.encodeString (text "connect") ++ (AMFAny.encodeNumber (whole 1) ++ (amfObject ++
      (AMFAny.encodeNamedString (text "app") app ++ (AMFAny.encodeNamedString (text "tcUrl") tcUrl ++
        (AMFAny.encodeNamedBoolean (text "fpad") false ++ (AMFAny.encodeNamedNumber (text "capabilities") (whole 31) ++
          (AMFAny.encodeNamedNumber (text "audioCodecs") (whole 1639) ++
            (AMFAny.encodeNamedNumber (text "videoCodecs") (whole 252) ++
              (AMFAny.encodeNamedNumber (text "videoFunction") (whole 1) ++ amfObjectEnd))))))))))

def sendConnect (ctx : CommandContext) : Checked CommandContext := do
  let ctx ← ctx.sendSetChunkSize
  ctx.sendMessage (connectMessage ctx.app ctx.tcUrl)

def connectResult (amf3 : Bool) : Checked Packet :=
  newMessage 1024 (commandHeader 0)
    (AMFAny.encodeString (text "_result") ++ (AMFAny.encodeNumber (whole 1) ++ (amfObject ++
      (AMFAny.encodeNamedString (text "fmsVer") (text "FMS/3,0,1,123") ++
        (AMFAny.encodeNamedNumber (text "capabilities") (whole 31) ++ (amfObjectEnd ++ (amfObject ++
          (AMFAny.encodeNamedString (text "level") (text "status") ++
            (AMFAny.encodeNamedString (text "code") (text "NetConnection.Connect.Success") ++
              (AMFAny.encodeNamedString (text "description") (text "Connection succeeded.") ++
                (AMFAny.encodeNamedNumber (text "objectEncoding") (if amf3 then whole 3 else whole 0) ++
                  amfObjectEnd)))))))))))

/-- The command object of a connect, where there is one; the encoding asked for is optional in it. -/
def takeCommandObject (ctx : CommandContext) (p : AMFAny) : Checked (CommandContext × Bool) :=
  match p.obj with
  | none => return (ctx, false)
  | some sub => do
      let app ← deref (AMFObject.propertyNamed (text "app") sub)
      let tcUrl ← deref (AMFObject.propertyNamed (text "tcUrl") sub)
      let amf3 := match AMFObject.propertyNamed (text "objectEncoding") sub with
        | some p => p.num == whole 3
        | none => false
      return ({ ctx with app := app.str, tcUrl := tcUrl.str }, amf3)

/-- The command object sets the application and its URL, whatever else is in the context. -/
theorem takeCommandObject_ok {ctx ctx₁ : CommandContext} {p : AMFAny} {amf3 : Bool}
    (h : ctx.takeCommandObject p = .ok (ctx₁, amf3)) :
    ∃ app tcUrl, ctx₁ = { ctx with app, tcUrl } ∧ ∀ other : CommandContext, other.app = ctx.app →
      other.tcUrl = ctx.tcUrl →
      other.takeCommandObject p = .ok ({ other with app, tcUrl }, amf3) := by
  unfold takeCommandObject at h ⊢
  cases hobj : p.obj with
  | none =>
      rw [hobj] at h
      obtain ⟨rfl, rfl⟩ := Prod.mk.inj (Except.ok.inj h)
      refine ⟨ctx.app, ctx.tcUrl, rfl, fun other happ htcUrl => ?_⟩
      rw [← happ, ← htcUrl]
      rfl
  | some sub =>
      rw [hobj] at h
      obtain ⟨app, happ, h⟩ := of_bind_ok h
      obtain ⟨tcUrl, htcUrl, h⟩ := of_bind_ok h
      obtain ⟨rfl, rfl⟩ := Prod.mk.inj (Except.ok.inj h)
      refine ⟨app.str, tcUrl.str, rfl, fun other _ _ => ?_⟩
      dsimp only
      rw [happ, htcUrl]
      rfl

def handleConnect (ctx : CommandContext) (obj : List AMFAny) : Checked CommandContext := do
  let p ← deref (AMFObject.property obj 2)
  let (ctx, amf3) ← ctx.takeCommandObject p
  let ctx ← ctx.sendAckWindowsSize
  let ctx ← ctx.sendSetPeerBandwidth
  let ctx ← ctx.sendSetChunkSize
  ctx.sendMessage (connectResult amf3)

def handleCreateStream (ctx : CommandContext) (obj : List AMFAny) : Checked CommandContext := do
  let p ← deref (AMFObject.property obj 1)
  ctx.sendMessage (newMessage 1024 (commandHeader 0)
    (AMFAny.encodeString (text "_result") ++ (AMFAny.encodeNumber p.num ++ (amfNull ++
      AMFAny.encodeNumber (whole kRtmpMsID1.toUInt64)))))

/-- `ParseNameAndTcUrl`. -/
def parseNameAndTcUrl (ctx : CommandContext) : CommandContext :=
  let app := (behind 47 ctx.app).getD ctx.app
  let param := (behind 63 ctx.name).getD []
  let list := splitString ctx.tcUrl (text "/")
  let (domain, app, name) :=
    match list with
    | [_, _, _, domain, app, name] => (domain, app, name)
    | [_, _, domain, app, name] => (domain, app, name)
    | _ => ([], app, ctx.name)
  -- everything from the first byte that is no colon goes
  let domain := match domain.findIdx? (· ≠ 58) with
    | some p => domain.take p
    | none => domain
  { ctx with app, name, param, sessionName := domain ++ (47 :: app) ++ (47 :: name) }

/-- `Play` and `Publish` of a client. -/
def play (ctx : CommandContext) (url : List UInt8) : CommandContext :=
  ({ ctx with isPlayer := true, tcUrl := url } : CommandContext).parseNameAndTcUrl

def publish (ctx : CommandContext) (url : List UInt8) : CommandContext :=
  ({ ctx with isPlayer := false, tcUrl := url } : CommandContext).parseNameAndTcUrl

/-- The stream name of a play or publish command; the transaction id in front of it is looked at as well. -/
def streamName (obj : List AMFAny) : Checked (List UInt8) := do
  let _ ← deref (AMFObject.property obj 1)
  let p ← deref (AMFObject.property obj 3)
  return p.str

def handlePlay (ctx : CommandContext) (obj : List AMFAny) : Checked CommandContext := do
  let name ← streamName obj
  let ctx := { ({ ctx with name } : CommandContext).parseNameAndTcUrl with isPlayer := true }
  let ctx ← ctx.sendUserCtrlMessage .streamBegin 1 0
  let ctx ← ctx.sendStatus (text "status") (text "NetStream.Play.Start") (text "Start playing")
  return ctx.tell (.onPlay ctx.sessionName ctx.param)

def handlePublish (ctx : CommandContext) (obj : List AMFAny) : Checked CommandContext := do
  let name ← streamName obj
  let ctx := { ctx with name, isPlayer := false }
  let ctx ← ctx.sendStatus (text "status") (text "NetStream.Publish.Start") (text "Start publishing")
  return ctx.tell (.onPublish ctx.sessionName ctx.param)

def handleResult (ctx : CommandContext) (obj : List AMFAny) : Checked CommandContext := do
  let p ← deref (AMFObject.property obj 1)
  if p.num = whole 1 then ctx.sendCreateStream
  else if p.num = whole 4 then
    if ctx.isPlayer then ctx.sendPlay else ctx.sendPublish
  else if p.num = whole 5 then return ctx.tell .onPublishPrepare
  else return ctx

/-- The description only goes to the log. -/
def handleError (ctx : CommandContext) (obj : List AMFAny) : Checked CommandContext := do
  let p ← deref (AMFObject.property obj 3)
  let sub ← deref p.obj
  let _ ← deref (AMFObject.propertyNamed (text "description") sub)
  return { ctx with out := { ctx.out with conn := ctx.out.conn.onClose } }

end CommandContext

/-- The keys of `commands_`. -/
inductive Command where
  | connect
  | createStream
  | result
  | error
  | play
  | publish
  deriving DecidableEq, Repr

namespace Command

def name : Command → List UInt8
  | connect => text "connect"
  | createStream => text "createStream"
  | result => text "_result"
  | error => text "_error"
  | play => text "play"
  | publish => text "publish"

def find (cmd : List UInt8) : Option Command :=
  [connect, createStream, result, error, play, publish].find? (·.name = cmd)

def handle : Command → CommandContext → List AMFAny → Checked CommandContext
  | connect => CommandContext.handleConnect
  | createStream => CommandContext.handleCreateStream
  | result => CommandContext.handleResult
  | error => CommandContext.handleError
  | play => CommandContext.handlePlay
  | publish => CommandContext.handlePublish

end Command

namespace CommandContext
variable [Host]

/-- The call of `Decode` on the body of a command; AMF3 has one byte in front. -/
def decodeCommand (body : List UInt8) (amf3 : Bool) : Checked Decoded :=
  if amf3 then AMFObject.decode (body.drop 1) (body.length - 1) false
  else AMFObject.decode body body.length false

/-- What follows on `Decode`. -/
def dispatchCommand (ctx : CommandContext) (r : Decoded) : Checked CommandContext :=
  if r.ret < 0 then return ctx
  else do
    let p ← deref (AMFObject.property r.properties 0)
    match Command.find p.str with
    | none => return ctx
    | some command => command.handle ctx r.properties

/-- The call of `Decode` when the bytes `behind` follow the body in memory: the size is that of the body. -/
def decodeCommandIn (behind body : List UInt8) (amf3 : Bool) : Checked Decoded :=
  if amf3 then AMFObject.decode ((body ++ behind).drop 1) (body.length - 1) false
  else AMFObject.decode (body ++ behind) body.length false

/-- `HandleAmfCommand` in that memory. -/
def handleAmfCommandIn (behind : List UInt8) (ctx : CommandContext) (body : List UInt8) (amf3 : Bool) :
    Checked CommandContext := do
  let r ← decodeCommandIn behind body amf3
  ctx.dispatchCommand r

theorem decodeCommandIn_nil (body : List UInt8) (amf3 : Bool) :
    decodeCommandIn [] body amf3 = decodeCommand body amf3 := by
  unfold decodeCommandIn decodeCommand
  rw [List.append_nil]

/-- `HandleAmfCommand` where a read beyond the body is a fault. -/
def handleAmfCommand (ctx : CommandContext) (body : List UInt8) (amf3 : Bool) : Checked CommandContext :=
  ctx.handleAmfCommandIn [] body amf3

theorem handleAmfCommand_decodes (ctx : CommandContext) (body : List UInt8) (amf3 : Bool) :
    ctx.handleAmfCommand body amf3 = decodeCommand body amf3 >>= ctx.dispatchCommand := by
  unfold handleAmfCommand handleAmfCommandIn
  rw [decodeCommandIn_nil]

end CommandContext
end TmmsServer
