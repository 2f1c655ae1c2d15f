import TmmsServer.Rtmp.AmfObjects
import TmmsServer.Rtmp.OutDiscipline

/-!
# Stream names between two peers

`SendPlay` and `SendPublish` put a null in front of the stream name. It gives the
receiver no property, and `HandlePlay` and `HandlePublish` take the value behind
the name.
-/
namespace TmmsServer

/-- The arguments of a play and of a publish command. -/
def playArguments (name : List UInt8) : List AMFArgument :=
  [.string (text "play"), .number (whole 0), .null, .string name, .number CommandContext.startAnywhere]

def publishArguments (name : List UInt8) : List AMFArgument :=
  [.string (text "publish"), .number (whole 5), .null, .string name, .string (text "live")]

theorem playArguments_fit {name : List UInt8} (hlen : name.length < 2 ^ 16) :
    ∀ a ∈ playArguments name, a.Fits := by
  intro a ha
  simp only [playArguments, List.mem_cons, List.not_mem_nil, or_false] at ha
  rcases ha with rfl | rfl | rfl | rfl | rfl
  · exact (by decide : (text "play").length < 2 ^ 16)
  · exact (by decide : field 3 (AMFAny.encodeNumber (whole 0)) ≠ 9)
  · trivial
  · exact hlen
  · exact (by decide : field 3 (AMFAny.encodeNumber CommandContext.startAnywhere) ≠ 9)

theorem publishArguments_fit {name : List UInt8} (hlen : name.length < 2 ^ 16) :
    ∀ a ∈ publishArguments name, a.Fits := by
  intro a ha
  simp only [publishArguments, List.mem_cons, List.not_mem_nil, or_false] at ha
  rcases ha with rfl | rfl | rfl | rfl | rfl
  · exact (by decide : (text "publish").length < 2 ^ 16)
  · exact (by decide : field 3 (AMFAny.encodeNumber (whole 5)) ≠ 9)
  · trivial
  · exact hlen
  · exact (by decide : (text "live").length < 2 ^ 16)

theorem playMessage_eq (name : List UInt8) : CommandContext.playMessage name =
    newMessage 1024 (commandHeader 1) ((playArguments name).flatMap AMFArgument.encode) := by
  simp only [playArguments, List.flatMap_cons, List.flatMap_nil, List.append_nil]
  rfl

theorem publishMessage_eq (name : List UInt8) : CommandContext.publishMessage name =
    newMessage 1024 (commandHeader 1) ((publishArguments name).flatMap AMFArgument.encode) := by
  simp only [publishArguments, List.flatMap_cons, List.flatMap_nil, List.append_nil]
  rfl

theorem argument_length {args : List AMFArgument} {name : List UInt8} (hmem : .string name ∈ args)
    (hfit : (args.flatMap AMFArgument.encode).length ≤ 1024) : name.length < 2 ^ 16 := by
  have hpart := length_le_flatMap AMFArgument.encode hmem
  have hname : name.length ≤ (AMFArgument.encode (.string name)).length := by
    rw [AMFArgument.encode, AMFArgument.body, List.length_cons, List.length_append]
    omega
  omega

section Sender

theorem sendMessage_frame {ctx ctx' : CommandContext} {message : Checked Packet}
    (h : ctx.sendMessage message = .ok ctx') : ctx' = { ctx with out := ctx'.out } := by
  unfold CommandContext.sendMessage CommandContext.pushOutQueue at h
  cases message with
  | error e => exact absurd h nofun
  | ok packet =>
      rw [ok_bind] at h
      cases hpush : ctx.out.pushOutQueue packet with
      | error e =>
          rw [hpush] at h
          exact absurd h nofun
      | ok out =>
          rw [hpush] at h
          obtain rfl := Except.ok.inj h
          rfl

theorem tell_name (ctx : CommandContext) (call : HandlerCall) :
    (ctx.tell call).name = ctx.name := by
  unfold CommandContext.tell
  split
  · rfl
  · rfl

theorem newMessage_light (msgSid : UInt32) {body : List UInt8} (hpos : 0 < body.length)
    (hfit : body.length ≤ 1024) :
    ∃ packet header, newMessage 1024 (commandHeader msgSid) body = .ok packet ∧
      packet.Light header := by
  have hlen : (UInt32.ofNat body.length).toNat = body.length := by
    rw [UInt32.toNat_ofNat']
    exact Nat.mod_eq_of_lt (by omega)
  refine ⟨_, _, (newMessage_eq 1024 (commandHeader msgSid) body).trans (if_pos hfit), ⟨⟨rfl, hlen, hpos⟩, ?_, ?_⟩⟩
  · exact (by decide : kRtmpCSIDAMFIni < 64)
  · dsimp only
    rw [hlen]
    unfold continuations
    omega

theorem sendMessage_light {h₀ : OutHistory} {pushed : List Packet} (ctx : CommandContext)
    (hout : Accounted h₀ pushed ctx.out) (msgSid : UInt32) {body : List UInt8} (hpos : 0 < body.length)
    (hfit : body.length ≤ 1024) :
    ∃ ctx', ctx.sendMessage (newMessage 1024 (commandHeader msgSid) body) = .ok ctx' := by
  obtain ⟨packet, header, hpacket, hlight⟩ := newMessage_light msgSid hpos hfit
  obtain ⟨out, hpush, -⟩ := push_light hout hlight
  refine ⟨{ ctx with out }, ?_⟩
  rw [CommandContext.sendMessage, hpacket, ok_bind, CommandContext.pushOutQueue, hpush]
  rfl

end Sender

section Receiver
variable [Host]

/-- The receiver of the message of `SendPlay` runs `HandlePlay`, which reads the name that was sent. -/
def PlayReads (name : List UInt8) : Prop :=
  ∃ packet obj p, CommandContext.playMessage name = .ok packet ∧
    decodedCommand packet.data false = some obj ∧
    AMFObject.property obj 0 = some p ∧ Command.find p.str = some .play ∧ CommandContext.streamName obj = .ok name

/-- A server that handles the message of `SendPublish` has the name that was sent in `name_`. -/
def PublishStores (server : CommandContext) (name : List UInt8) : Prop :=
  ∃ packet server', CommandContext.publishMessage name = .ok packet ∧
    server.handleAmfCommand packet.data false = .ok server' ∧ server'.name = name

/-- Without the null, the start time is in the fourth place. -/
theorem playReads_iff (name : List UInt8) : PlayReads name ↔ name = [] := by
  constructor
  · rintro ⟨packet, obj, p, hpacket, hobj, -, -, hname⟩
    rw [playMessage_eq, newMessage_eq] at hpacket
    split at hpacket
    next hfit =>
      obtain rfl := Except.ok.inj hpacket
      have hlen : name.length < 2 ^ 16 := argument_length (by simp [playArguments]) hfit
      rw [decodedCommand_arguments (playArguments_fit hlen)] at hobj
      obtain rfl := Option.some.inj hobj
      exact (Except.ok.inj hname).symm
    next => exact absurd hpacket nofun
  · rintro rfl
    have hpacket := playMessage_eq []
    rw [newMessage_eq, if_pos (by decide)] at hpacket
    exact ⟨_, (playArguments []).flatMap AMFArgument.properties, .string [] (text "play"), hpacket,
      decodedCommand_arguments (playArguments_fit (by decide)), rfl, rfl, rfl⟩

theorem handleAmfCommand_publish (server : CommandContext) {name : List UInt8}
    (hlen : name.length < 2 ^ 16) :
    server.handleAmfCommand ((publishArguments name).flatMap AMFArgument.encode) false =
      server.handlePublish ((publishArguments name).flatMap AMFArgument.properties) :=
  handleAmfCommand_decoded server (decodedCommand_arguments (publishArguments_fit hlen)) rfl Command.publish.find_name

/-- The state in which `HandlePublish` answers them. -/
def namedLive (server : CommandContext) : CommandContext :=
  { server with name := text "live", isPlayer := false }

theorem handlePublish_arguments (server : CommandContext) (name : List UInt8) :
    server.handlePublish ((publishArguments name).flatMap AMFArgument.properties) =
      ((namedLive server).sendStatus (text "status") (text "NetStream.Publish.Start") (text "Start publishing")).map
        fun ctx => ctx.tell (.onPublish ctx.sessionName ctx.param) := rfl

/-- With any name that is sent, `name_` is the type of the publication afterwards. -/
theorem publishStores_live {server : CommandContext} {name : List UInt8}
    (h : PublishStores server name) : name = text "live" := by
  obtain ⟨packet, server', hpacket, hserver, hname⟩ := h
  rw [publishMessage_eq, newMessage_eq] at hpacket
  split at hpacket
  next hfit =>
    obtain rfl := Except.ok.inj hpacket
    have hlen : name.length < 2 ^ 16 := argument_length (by simp [publishArguments]) hfit
    rw [handleAmfCommand_publish server hlen, handlePublish_arguments] at hserver
    cases hstatus : (namedLive server).sendStatus (text "status") (text "NetStream.Publish.Start")
        (text "Start publishing") with
    | error e =>
        rw [hstatus] at hserver
        exact absurd hserver nofun
    | ok ctx =>
        rw [hstatus] at hserver
        obtain rfl := Except.ok.inj hserver
        rw [← hname, tell_name, sendMessage_frame hstatus]
        rfl
  next => exact absurd hpacket nofun

theorem live_publishStores {h₀ : OutHistory} {pushed : List Packet} {server : CommandContext}
    (hout : Accounted h₀ pushed server.out) : PublishStores server (text "live") := by
  have hpacket := publishMessage_eq (text "live")
  rw [newMessage_eq, if_pos (by decide)] at hpacket
  obtain ⟨ctx, hstatus⟩ : ∃ ctx, (namedLive server).sendStatus (text "status") (text "NetStream.Publish.Start")
      (text "Start publishing") = .ok ctx :=
    sendMessage_light (namedLive server) hout 1 (by decide) (by decide)
  refine ⟨_, ctx.tell (.onPublish ctx.sessionName ctx.param), hpacket, ?_, ?_⟩
  · dsimp only
    rw [handleAmfCommand_publish server (by decide), handlePublish_arguments, hstatus]
    rfl
  · rw [tell_name, sendMessage_frame hstatus]
    rfl

/-- The two messages bring over no name but one each: the receiver of a play command reads the empty name,
and the receiver of a publish command stores `live`, as it does whenever its reply can be queued. -/
theorem streamName_received (server : CommandContext) (name : List UInt8) :
    ¬ (PlayReads name ∧ PublishStores server name) ∧ (PlayReads name ↔ name = []) ∧
      (PublishStores server name → name = text "live") ∧
      ∀ h₀ pushed, Accounted h₀ pushed server.out → PublishStores server (text "live") := by
  refine ⟨?_, playReads_iff name, publishStores_live, fun _ _ => live_publishStores⟩
  rintro ⟨hplay, hpublish⟩
  rw [playReads_iff, publishStores_live hpublish] at hplay
  exact absurd hplay (by decide)

end Receiver

theorem streamName_received_fresh :
    @PublishStores ⟨fun _ => 0⟩ {} (text "live") ∧ ¬ @PlayReads ⟨fun _ => 0⟩ (text "live") := by
  have hidle : ({} : RtmpOut).Idle := ⟨rfl, rfl, rfl, rfl, rfl⟩
  obtain ⟨-, hplay, -, hpublish⟩ := @streamName_received ⟨fun _ => 0⟩ {} (text "live")
  exact ⟨hpublish _ _ (accounted_idle hidle), fun h => absurd (hplay.mp h) (by decide)⟩

/-- The name `a` arrives in neither message. -/
theorem streamName_lost : ¬ ∀ (host : Host) (server : CommandContext)
    (name : List UInt8), name.length + 30 ≤ 1024 →
    @PlayReads host name ∧ @PublishStores host server name := by
  intro h
  let host : Host := ⟨fun _ => 0⟩
  have hplay := (h host {} (text "a") (by decide)).1
  rw [playReads_iff] at hplay
  exact absurd hplay (by decide)

end TmmsServer
