import TmmsServer.Rtmp.AmfObjects
import TmmsServer.Rtmp.RtmpPair

/-!
# The dialogue of a client and a server

What each side pushes, message by message: the connect command behind Set Chunk
Size, the four answers to it, then createStream and the play or publish command.
-/
namespace TmmsServer
open Lib.Words BytesReader

/-- A message of the other side and what is pushed on it. -/
structure Exchange where
  packet : Packet
  replies : List Packet

/-- What one side pushes unasked, and what it pushes on the messages of the other. -/
structure Script where
  opening : List Packet
  exchanges : List Exchange

def Script.sent (s : Script) : List Packet := s.opening ++ s.exchanges.flatMap Exchange.replies

section Responses
variable [Host]

/-- The message, as it is completed, has the effect of pushing the replies and of the change to the
other fields. -/
def Responds (ctx : CommandContext) (e : Exchange) (ctx' : CommandContext) : Prop :=
  ∀ received out, MessageContext.messageComplete ⟨{ ctx with out }, received⟩ e.packet.asReceived =
    (out.pushAll e.replies).map fun out => ⟨{ ctx' with out }, received⟩

/-- The messages are handled one after the other; the window never changes. -/
def Converses (ctx : CommandContext) : List Exchange → Prop
  | [] => ctx.ackSize = 2500000
  | e :: exchanges => ctx.ackSize = 2500000 ∧ ∃ ctx', Responds ctx e ctx' ∧ Converses ctx' exchanges

theorem Converses.ackSize {ctx : CommandContext} {exchanges : List Exchange}
    (h : Converses ctx exchanges) : ctx.ackSize = 2500000 := by
  cases exchanges with
  | nil => exact h
  | cons e exchanges => exact h.1

/-- A row of messages at a time, by induction on it. -/
theorem Converses.run {ctx : CommandContext} (first rest : List Exchange)
    (h : Converses ctx (first ++ rest)) : ∃ ctx', Converses ctx' rest ∧ ∀ received out,
      (first.map (·.packet.asReceived)).foldlM MessageContext.messageComplete ⟨{ ctx with out }, received⟩ =
        (out.pushAll (first.flatMap Exchange.replies)).map fun out => ⟨{ ctx' with out }, received⟩ := by
  induction first generalizing ctx with
  | nil => exact ⟨ctx, h, fun received out => rfl⟩
  | cons e first ih =>
      obtain ⟨-, ctx₁, hresponds, hrest⟩ := h
      obtain ⟨ctx', hconverses, hrun⟩ := ih hrest
      refine ⟨ctx', hconverses, fun received out => ?_⟩
      rw [List.map_cons, List.foldlM_cons, hresponds, List.flatMap_cons, Outbound.pushAll_append]
      cases out.pushAll e.replies with
      | error err => rfl
      | ok out =>
          rw [map_ok, ok_bind, ok_bind]
          exact hrun received out

variable {ctx ctx' : CommandContext} {replies : List Packet} {body : List UInt8} {obj : List AMFAny} {p : AMFAny}

theorem messageComplete_command (ctx : MessageContext) (sid : UInt32) (body : List UInt8) :
    ctx.messageComplete (message 1024 (commandHeader sid) body).asReceived =
      ctx.andCommands (ctx.commands.handleAmfCommand body false) := rfl

theorem responds_command {command : Command} (sid : UInt32)
    (hobj : decodedCommand body false = some obj)
    (hp : AMFObject.property obj 0 = some p) (hfind : Command.find p.str = some command)
    (hsends : Sends (command.handle · obj) ctx replies ctx') :
    Responds ctx ⟨message 1024 (commandHeader sid) body, replies⟩ ctx' := by
  intro received out
  have hcall : ({ ctx with out } : CommandContext).handleAmfCommand body false =
      (out.pushAll replies).map fun out => { ctx' with out } :=
    (handleAmfCommand_decoded _ hobj hp hfind).trans (hsends out)
  dsimp only
  rw [messageComplete_command, hcall]
  cases out.pushAll replies with
  | error e => rfl
  | ok out => rfl

theorem responds_unknown (sid : UInt32) (hobj : decodedCommand body false = some obj)
    (hp : AMFObject.property obj 0 = some p) (hfind : Command.find p.str = none) :
    Responds ctx ⟨message 1024 (commandHeader sid) body, []⟩ ctx := by
  intro received out
  dsimp only
  rw [messageComplete_command, handleAmfCommand_eq _ hobj hp, hfind]
  rfl

theorem responds_setChunkSize : Responds ctx ⟨setChunkSizeMessage, []⟩ ctx := fun _ _ => rfl

theorem responds_setPeerBandwidth (ackSize : Int32) :
    Responds ctx ⟨setPeerBandwidthMessage ackSize, []⟩ ctx :=
  fun _ _ => rfl

theorem responds_ackWindowSize (ackSize : Int32) :
    Responds ctx ⟨ackWindowsSizeMessage ackSize, []⟩ { ctx with ackSize } := by
  intro received out
  have hdata : (ackWindowsSizeMessage ackSize).asReceived.data =
      BytesWriter.writeUint32T ackSize.toUInt32 := rfl
  have hsize : 4 ≤ (ackWindowsSizeMessage ackSize).asReceived.packetSize := by
    rw [Packet.packetSize, hdata, writeUint32T_length]
  have hread : readUint32T (ackWindowsSizeMessage ackSize).asReceived.data 0 =
      .ok ackSize.toUInt32 := by
    have h : readUint32T ([] ++ (BytesWriter.writeUint32T ackSize.toUInt32 ++ [])) 0 =
        .ok ackSize.toUInt32 :=
      readUint32T_write ackSize.toUInt32 rfl
    rwa [List.nil_append, List.append_nil] at h
  have hcall : ({ ctx with out } : CommandContext).handleAckWindowSize (ackWindowsSizeMessage ackSize).asReceived =
      .ok { ctx with out, ackSize } := by
    rw [CommandContext.handleAckWindowSize, if_pos hsize, hread, ok_bind]
    rfl
  change MessageContext.andCommands ⟨{ ctx with out }, received⟩ (CommandContext.handleAckWindowSize _ _) = _
  rw [hcall]
  rfl

theorem responds_streamBegin : Responds ctx ⟨streamBeginMessage, []⟩ ctx := fun _ _ => rfl

end Responses

/-! ## The messages -/

def connectObject (app tcUrl : List UInt8) : List AMFField :=
  [.string (text "app") app, .string (text "tcUrl") tcUrl, .boolean (text "fpad") false,
    .number (text "capabilities") (whole 31), .number (text "audioCodecs") (whole 1639),
    .number (text "videoCodecs") (whole 252), .number (text "videoFunction") (whole 1)]

def connectParts (app tcUrl : List UInt8) : List AMFPart :=
  [.argument (.string (text "connect")), .argument (.number (whole 1)), .object (connectObject app tcUrl)]

def connectResultParts : List AMFPart :=
  [.argument (.string (text "_result")), .argument (.number (whole 1)),
    .object [.string (text "fmsVer") (text "FMS/3,0,1,123"), .number (text "capabilities") (whole 31)],
    .object [.string (text "level") (text "status"), .string (text "code") (text "NetConnection.Connect.Success"),
      .string (text "description") (text "Connection succeeded."), .number (text "objectEncoding") (whole 0)]]

def statusParts (code description : List UInt8) : List AMFPart :=
  [.argument (.string (text "onStatus")), .argument (.number (whole 0)), .argument .null,
    .object [.string (text "level") (text "status"), .string (text "code") code,
      .string (text "description") description]]

def createStreamArguments : List AMFArgument :=
  [.string (text "createStream"), .number (whole 4), .null]

def connectCall (app tcUrl : List UInt8) : Packet :=
  message 1024 (commandHeader 0) ((connectParts app tcUrl).flatMap AMFPart.encode)

def createStreamCall : Packet := message 1024 (commandHeader 0)
    (createStreamArguments.flatMap AMFArgument.encode)

def streamArguments (ctx : CommandContext) : List AMFArgument :=
  if ctx.isPlayer then playArguments ctx.name else publishArguments ctx.name

/-- The last command of a client. -/
def streamCall (ctx : CommandContext) : Packet :=
  message 1024 (commandHeader 1) ((streamArguments ctx).flatMap AMFArgument.encode)

theorem connectMessage_eq (app tcUrl : List UInt8) : CommandContext.connectMessage app tcUrl =
    newMessage 1024 (commandHeader 0) ((connectParts app tcUrl).flatMap AMFPart.encode) := by
  simp only [connectParts, connectObject, List.flatMap_cons, List.flatMap_nil, AMFPart.encode,
    AMFField.encode, List.append_assoc, List.append_nil]
  rfl

theorem statusMessage_eq (code description : List UInt8) : statusMessage code description =
    message 1024 (commandHeader 1) ((statusParts code description).flatMap AMFPart.encode) := by
  simp only [statusParts, List.flatMap_cons, List.flatMap_nil, AMFPart.encode, AMFField.encode,
    List.append_assoc, List.append_nil]
  rfl

theorem connectResultMessage_eq : connectResultMessage false =
    message 1024 (commandHeader 0) (connectResultParts.flatMap AMFPart.encode) := by
  have hbody : CommandContext.connectResult false =
      newMessage 1024 (commandHeader 0) (connectResultParts.flatMap AMFPart.encode) := by
    simp only [connectResultParts, List.flatMap_cons, List.flatMap_nil, AMFPart.encode,
      AMFField.encode, List.append_assoc, List.append_nil]
    rfl
  rw [connectResultMessage, hbody, newMessage_fits (by decide +kernel)]
  rfl

/-- Only the strings of the URL could be too long. -/
theorem connectParts_fit {app tcUrl : List UInt8} (happ : app.length < 2 ^ 16)
    (htcUrl : tcUrl.length < 2 ^ 16) : ∀ p ∈ connectParts app tcUrl, p.Fits := by
  intro p hp
  simp only [connectParts, List.mem_cons, List.not_mem_nil, or_false] at hp
  rcases hp with rfl | rfl | rfl
  · exact (by decide : (AMFArgument.string (text "connect")).Fits)
  · exact (by decide : (AMFArgument.number (whole 1)).Fits)
  · have happName : text "app" ≠ [] ∧ (text "app").length < 2 ^ 16 := by decide
    have htcUrlName : text "tcUrl" ≠ [] ∧ (text "tcUrl").length < 2 ^ 16 := by decide
    intro f hf
    rw [connectObject, List.mem_cons, List.mem_cons] at hf
    rcases hf with rfl | rfl | hf
    · exact ⟨happName.1, happName.2, happ⟩
    · exact ⟨htcUrlName.1, htcUrlName.2, htcUrl⟩
    · clear happ htcUrl happName htcUrlName
      revert f
      decide

theorem connectResultParts_fit : ∀ p ∈ connectResultParts, p.Fits := by decide

theorem playStatus_fit : ∀ p ∈ statusParts (text "NetStream.Play.Start")
    (text "Start playing"), p.Fits := by decide

theorem publishStatus_fit : ∀ p ∈ statusParts (text "NetStream.Publish.Start")
    (text "Start publishing"), p.Fits := by
  decide

theorem createStreamArguments_fit : ∀ a ∈ createStreamArguments, a.Fits := by decide

theorem createStreamResult_fit : ∀ a ∈ createStreamResult (whole 4), a.Fits := by decide

/-! ## The two scripts -/

/-- What a server pushes on the last command. -/
def streamReplies (ctx : CommandContext) : List Packet :=
  if ctx.isPlayer then [streamBeginMessage, playStatus] else [publishStatus]

namespace RtmpClient
variable (client : RtmpClient)

def script : Script where
  opening := [setChunkSizeMessage, connectCall client.onConnection.app client.onConnection.tcUrl]
  exchanges :=
    [⟨ackWindowsSizeMessage 2500000, []⟩, ⟨setPeerBandwidthMessage 2500000, []⟩, ⟨setChunkSizeMessage, []⟩,
      ⟨connectResultMessage false, [createStreamCall]⟩,
      ⟨createStreamMessage (whole 4), [streamCall client.onConnection]⟩] ++
    (streamReplies client.onConnection).map (⟨·, []⟩)

def serverScript : Script where
  opening := []
  exchanges :=
    [⟨setChunkSizeMessage, []⟩,
      ⟨connectCall client.onConnection.app client.onConnection.tcUrl, connectReplies 2500000 false⟩,
      ⟨createStreamCall, [createStreamMessage (whole 4)]⟩,
      ⟨streamCall client.onConnection, streamReplies client.onConnection⟩]

theorem scripts_match : client.script.exchanges.map Exchange.packet = client.serverScript.sent ∧
    client.serverScript.exchanges.map Exchange.packet = client.script.sent := by
  have hsilent : (streamReplies client.onConnection).flatMap (fun _ => ([] : List Packet)) = [] :=
    List.flatMap_eq_nil_iff.mpr fun _ _ => rfl
  constructor
  · simp only [script, serverScript, Script.sent, connectReplies, List.map_cons, List.map_map,
      Function.comp_def, List.map_id', List.flatMap_cons, List.flatMap_nil, List.nil_append,
      List.cons_append, List.append_nil]
  · simp only [script, serverScript, Script.sent, List.map_cons, List.map_nil, List.flatMap_cons,
      List.flatMap_map, hsilent, List.nil_append, List.cons_append, List.append_nil]

end RtmpClient

section Client
variable {ctx : CommandContext}

theorem handleResult_createStream {obj : List AMFAny} {p : AMFAny}
    (hp : AMFObject.property obj 1 = some p) (hnum : p.num = whole 1) :
    Sends (·.handleResult obj) ctx [createStreamCall] ctx := by
  intro out
  unfold CommandContext.handleResult
  dsimp only
  rw [hp]
  change (if p.num = whole 1 then _ else _) = _
  rw [if_pos hnum]
  exact Sends.sendMessage rfl ctx out

theorem handleResult_stream {obj : List AMFAny} {p : AMFAny}
    (hp : AMFObject.property obj 1 = some p) (hnum : p.num = whole 4)
    (hfit : ((streamArguments ctx).flatMap AMFArgument.encode).length ≤ 1024) :
    Sends (·.handleResult obj) ctx [streamCall ctx] ctx := by
  have hone : whole 4 ≠ whole 1 := by decide
  have hmessage : newMessage 1024 (commandHeader 1) ((streamArguments ctx).flatMap AMFArgument.encode) =
      .ok (streamCall ctx) := newMessage_fits hfit
  intro out
  have hcall : ({ ctx with out } : CommandContext).handleResult obj =
      ({ ctx with out } : CommandContext).sendMessage
        (newMessage 1024 (commandHeader 1) ((streamArguments ctx).flatMap AMFArgument.encode)) := by
    unfold CommandContext.handleResult
    rw [hp]
    change (if p.num = whole 1 then _ else if p.num = whole 4 then _ else _) = _
    rw [hnum, if_neg hone, if_pos rfl]
    unfold streamArguments CommandContext.sendPlay CommandContext.sendPublish
    rw [playMessage_eq, publishMessage_eq]
    dsimp only
    split
    · rfl
    · rfl
  exact hcall.trans (Sends.sendMessage hmessage ctx out)

variable [Host]

theorem responds_connectResult : Responds ctx ⟨connectResultMessage false, [createStreamCall]⟩ ctx := by
  have hnum : (AMFAny.number [] (Lib.Double.ofUint64 (Double.toUint64 (whole 1)))).num = whole 1 :=
    congrArg Lib.Double.ofUint64 (Double.toUint64_ofUint64 (by decide))
  rw [connectResultMessage_eq]
  exact responds_command 0 (decodedCommand_parts connectResultParts_fit) rfl
    Command.result.find_name (handleResult_createStream rfl hnum)

theorem responds_createStreamResult (hfit : ((streamArguments ctx).flatMap AMFArgument.encode).length ≤ 1024) :
    Responds ctx ⟨createStreamMessage (whole 4), [streamCall ctx]⟩ ctx := by
  have hnum : (AMFAny.number [] (Lib.Double.ofUint64 (Double.toUint64 (whole 4)))).num = whole 4 :=
    congrArg Lib.Double.ofUint64 (Double.toUint64_ofUint64 (by decide))
  exact responds_command 0 (decodedCommand_arguments createStreamResult_fit) rfl
    Command.result.find_name (handleResult_stream rfl hnum hfit)

theorem responds_status {code description : List UInt8}
    (hfits : ∀ p ∈ statusParts code description, p.Fits) :
    Responds ctx ⟨statusMessage code description, []⟩ ctx := by
  rw [statusMessage_eq]
  exact responds_unknown 1 (decodedCommand_parts hfits) rfl rfl

end Client

theorem parseNameAndTcUrl_ackSize (ctx : CommandContext) :
    ctx.parseNameAndTcUrl.ackSize = ctx.ackSize := rfl

theorem tell_ackSize (ctx : CommandContext) (call : HandlerCall) :
    (ctx.tell call).ackSize = ctx.ackSize := by
  unfold CommandContext.tell
  split
  · rfl
  · rfl

section Server
variable [Host] {ctx : CommandContext}

theorem responds_connect {app tcUrl : List UInt8} (happ : app.length < 2 ^ 16)
    (htcUrl : tcUrl.length < 2 ^ 16) :
    Responds ctx ⟨connectCall app tcUrl, connectReplies ctx.ackSize false⟩ { ctx with app, tcUrl } :=
  responds_command 0 (decodedCommand_parts (connectParts_fit happ htcUrl)) rfl
    Command.connect.find_name (ctx.handleConnect_sends rfl rfl)

theorem responds_createStream : Responds ctx ⟨createStreamCall, [createStreamMessage (whole 4)]⟩ ctx := by
  have hnum : (AMFAny.number [] (Lib.Double.ofUint64 (Double.toUint64 (whole 4)))).num = whole 4 :=
    congrArg Lib.Double.ofUint64 (Double.toUint64_ofUint64 (by decide))
  have hproperty : AMFObject.property (createStreamArguments.flatMap AMFArgument.properties) 1 =
      some (.number [] (Lib.Double.ofUint64 (Double.toUint64 (whole 4)))) := rfl
  have hsends := ctx.handleCreateStream_sends hproperty
  rw [hnum] at hsends
  exact responds_command 0 (decodedCommand_arguments createStreamArguments_fit) rfl
    Command.createStream.find_name hsends

/-- The play or publish command of a client. -/
theorem responds_stream {client : CommandContext} (hlen : client.name.length < 2 ^ 16) :
    ∃ ctx', Responds ctx ⟨streamCall client, streamReplies client⟩ ctx' ∧
      ctx'.ackSize = ctx.ackSize := by
  unfold streamCall streamArguments streamReplies
  split
  · have hname : CommandContext.streamName ((playArguments client.name).flatMap AMFArgument.properties) = .ok [] := rfl
    have hsends := ctx.handlePlay_sends hname
    refine ⟨_, responds_command 1 (decodedCommand_arguments (playArguments_fit hlen)) rfl
      Command.play.find_name hsends, ?_⟩
    rw [tell_ackSize]
    exact parseNameAndTcUrl_ackSize _
  · have hname : CommandContext.streamName ((publishArguments client.name).flatMap AMFArgument.properties) =
        .ok (text "live") := rfl
    have hsends := ctx.handlePublish_sends hname
    refine ⟨_, responds_command 1 (decodedCommand_arguments (publishArguments_fit hlen)) rfl
      Command.publish.find_name hsends, ?_⟩
    rw [tell_ackSize]

end Server

namespace RtmpClient
variable {client : RtmpClient}

theorem onConnection_ackSize (client : RtmpClient) : client.onConnection.ackSize = 2500000 := by
  unfold onConnection
  dsimp only
  split
  · rfl
  · rfl

theorem onConnection_isPlayer (client : RtmpClient) :
    client.onConnection.isPlayer = client.isPlayer := by
  unfold onConnection
  dsimp only
  split
  next h => exact h.symm
  next h => exact (Bool.eq_false_iff.mpr h).symm

theorem Fits.connect_length (hfit : client.Fits) :
    ((connectParts client.onConnection.app client.onConnection.tcUrl).flatMap AMFPart.encode).length ≤ 1024 := by
  obtain ⟨packet, hpacket⟩ := hfit.connect
  rw [connectMessage_eq, newMessage_eq] at hpacket
  split at hpacket
  next hlen => exact hlen
  next => exact absurd hpacket nofun

theorem Fits.stream_length (hfit : client.Fits) :
    ((streamArguments client.onConnection).flatMap AMFArgument.encode).length ≤ 1024 := by
  obtain ⟨packet, hpacket⟩ := hfit.stream
  have hmessage : newMessage 1024 (commandHeader 1)
      ((streamArguments client.onConnection).flatMap AMFArgument.encode) = .ok packet := by
    rw [← hpacket, streamArguments, onConnection_isPlayer]
    split
    · exact (playMessage_eq _).symm
    · exact (publishMessage_eq _).symm
  rw [newMessage_eq] at hmessage
  split at hmessage
  next hlen => exact hlen
  next => exact absurd hmessage nofun

theorem Fits.name_lt (hfit : client.Fits) : client.onConnection.name.length < 2 ^ 16 := by
  refine argument_length ?_ hfit.stream_length
  unfold streamArguments
  split
  · simp [playArguments]
  · simp [publishArguments]

theorem Fits.url_lt (hfit : client.Fits) :
    client.onConnection.app.length < 2 ^ 16 ∧ client.onConnection.tcUrl.length < 2 ^ 16 := by
  have hlen := hfit.connect_length
  have hobject : AMFPart.object (connectObject client.onConnection.app client.onConnection.tcUrl) ∈
      connectParts client.onConnection.app client.onConnection.tcUrl := by simp [connectParts]
  have happ := AMFPart.string_length_le hobject List.mem_cons_self
  have htcUrl := AMFPart.string_length_le hobject (List.mem_cons_of_mem _ List.mem_cons_self)
  omega

theorem onConnection_out (client : RtmpClient) : client.onConnection.out = {} := by
  unfold onConnection
  dsimp only
  split
  · rfl
  · rfl

theorem sendConnect_sends (client : RtmpClient) (hfit : client.Fits) :
    Sends CommandContext.sendConnect client.onConnection client.script.opening client.onConnection := by
  have hmessage : CommandContext.connectMessage client.onConnection.app client.onConnection.tcUrl =
      .ok (connectCall client.onConnection.app client.onConnection.tcUrl) := by
    rw [connectMessage_eq]
    exact newMessage_fits hfit.connect_length
  have hchunk : Sends CommandContext.sendSetChunkSize client.onConnection [setChunkSizeMessage] client.onConnection :=
    Sends.sendMessage rfl _
  have hconnect : Sends (fun ctx => ctx.sendMessage (CommandContext.connectMessage ctx.app ctx.tcUrl))
      client.onConnection
      [connectCall client.onConnection.app client.onConnection.tcUrl] client.onConnection :=
    fun out => Sends.sendMessage hmessage client.onConnection out
  exact hchunk.bind hconnect

/-- The client's side of the dialogue. -/
theorem Fits.client_converses [Host] (hfit : client.Fits) :
    Converses client.onConnection client.script.exchanges := by
  have hack := client.onConnection_ackSize
  have hwindow : Responds client.onConnection ⟨ackWindowsSizeMessage 2500000, []⟩
      { client.onConnection with ackSize := 2500000 } := responds_ackWindowSize 2500000
  have hsame : ({ client.onConnection with ackSize := 2500000 } : CommandContext) =
      client.onConnection := by
    rw [← hack]
  have hlast : Converses client.onConnection ((streamReplies client.onConnection).map (Exchange.mk · [])) := by
    unfold streamReplies
    split
    · exact ⟨hack, _, responds_streamBegin, hack, _, responds_status playStatus_fit, hack⟩
    · exact ⟨hack, _, responds_status publishStatus_fit, hack⟩
  rw [hsame] at hwindow
  exact ⟨hack, _, hwindow, hack, _, responds_setPeerBandwidth _, hack, _, responds_setChunkSize, hack, _,
    responds_connectResult, hack, _, responds_createStreamResult hfit.stream_length, hlast⟩

theorem Fits.server_converses [Host] (hfit : client.Fits) (server : RtmpServer) :
    Converses server.onNewConnection.ctx.commands client.serverScript.exchanges := by
  obtain ⟨happ, htcUrl⟩ := hfit.url_lt
  have hstream : ∃ ctx', Responds { server.onNewConnection.ctx.commands with
        app := client.onConnection.app
        tcUrl := client.onConnection.tcUrl }
      ⟨streamCall client.onConnection, streamReplies client.onConnection⟩ ctx' ∧
      ctx'.ackSize = 2500000 :=
    responds_stream hfit.name_lt
  obtain ⟨ctx', hstream, hack⟩ := hstream
  exact ⟨rfl, _, responds_setChunkSize, rfl, _, responds_connect happ htcUrl, rfl, _, responds_createStream, rfl, ctx',
    hstream, hack⟩

end RtmpClient
end TmmsServer
