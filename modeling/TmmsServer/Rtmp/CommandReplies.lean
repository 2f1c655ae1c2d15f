import TmmsServer.Rtmp.StreamName

/-!
# What the command handlers send

Each handler of the server against the packets it pushes: whatever the state of
the output, the call has the effect of pushing these and of the change to the
other fields.
-/
namespace TmmsServer
open Lib.Words

namespace Outbound

/-- `PushOutQueue` of one packet after the other. -/
def pushAll (o : Outbound) (packets : List Packet) : Checked Outbound := o.run (packets.map .push)

theorem pushAll_cons (o : Outbound) (packet : Packet) (packets : List Packet) :
    o.pushAll (packet :: packets) = o.pushOutQueue packet >>= fun o => o.pushAll packets := rfl

theorem pushAll_append (o : Outbound) (ps qs : List Packet) :
    o.pushAll (ps ++ qs) = o.pushAll ps >>= fun o => o.pushAll qs := by
  induction ps generalizing o with
  | nil => rfl
  | cons p ps ih =>
      rw [List.cons_append, pushAll_cons, pushAll_cons]
      cases o.pushOutQueue p with
      | error e => rfl
      | ok o =>
          rw [ok_bind, ok_bind]
          exact ih o

end Outbound

theorem pushAll_busy {o : Outbound} (hbusy : o.ctx.sending = true) (packets : List Packet) :
    o.pushAll packets =
      .ok { o with ctx := { o.ctx with outWaitingQueue := o.ctx.outWaitingQueue ++ packets } } := by
  induction packets generalizing o with
  | nil =>
      rw [List.append_nil]
      rfl
  | cons packet packets ih =>
      have hpush : o.pushOutQueue packet =
          .ok { o with ctx := { o.ctx with outWaitingQueue := o.ctx.outWaitingQueue ++ [packet] } } := if_pos hbusy
      have hrest := ih
        (o := { o with ctx := { o.ctx with outWaitingQueue := o.ctx.outWaitingQueue ++ [packet] } }) hbusy
      rw [Outbound.pushAll_cons, hpush, ok_bind, hrest]
      dsimp only
      rw [List.append_assoc]
      rfl

theorem pushAll_light {h₀ : OutHistory} {pushed : List Packet} {o : Outbound}
    (h : Accounted h₀ pushed o)
    (packets : List Packet) (hlight : ∀ p ∈ packets, ∃ header, p.Light header) :
    ∃ o', o.pushAll packets = .ok o' ∧ Accounted h₀ (pushed ++ packets) o' := by
  induction packets generalizing o pushed with
  | nil =>
      rw [List.append_nil]
      exact ⟨o, rfl, h⟩
  | cons packet packets ih =>
      obtain ⟨header, hp⟩ := hlight packet List.mem_cons_self
      obtain ⟨o₁, ho₁, h₁⟩ := push_light h hp
      obtain ⟨o₂, ho₂, h₂⟩ := ih h₁ fun p hmem => hlight p (List.mem_cons_of_mem _ hmem)
      rw [List.append_assoc] at h₂
      exact ⟨o₂, by rw [Outbound.pushAll_cons, ho₁, ok_bind, ho₂], h₂⟩

/-- Whatever the output is, the call pushes the packets and makes `ctx'` of the other fields. -/
def Sends (f : CommandContext → Checked CommandContext) (ctx : CommandContext)
    (packets : List Packet) (ctx' : CommandContext) : Prop :=
  ∀ out, f { ctx with out } = (out.pushAll packets).map fun out => { ctx' with out }

namespace Sends
variable {f g : CommandContext → Checked CommandContext} {ctx ctx₁ ctx₂ : CommandContext} {ps qs : List Packet}

theorem nothing (h : ∀ out, f { ctx with out } = .ok { ctx₁ with out }) : Sends f ctx [] ctx₁ := h

theorem bind (hf : Sends f ctx ps ctx₁) (hg : Sends g ctx₁ qs ctx₂) :
    Sends (fun ctx => f ctx >>= g) ctx (ps ++ qs) ctx₂ := by
  intro out
  dsimp only
  rw [hf out, Outbound.pushAll_append]
  cases out.pushAll ps with
  | error e => rfl
  | ok out =>
      rw [map_ok, ok_bind, ok_bind]
      exact hg out

theorem sendMessage {message : Checked Packet} {packet : Packet} (h : message = .ok packet)
    (ctx : CommandContext) : Sends (·.sendMessage message) ctx [packet] ctx := by
  intro out
  rw [h, Outbound.pushAll_cons]
  change ({ ctx with out } : CommandContext).pushOutQueue packet = _
  unfold CommandContext.pushOutQueue
  dsimp only
  cases out.pushOutQueue packet with
  | error e => rfl
  | ok out => rfl

theorem tell (ctx : CommandContext) (call : CommandContext → HandlerCall)
    (h : ∀ out, call { ctx with out } = call ctx) :
    Sends (fun ctx => .ok (ctx.tell (call ctx))) ctx [] (ctx.tell (call ctx)) := by
  apply nothing
  intro out
  rw [h out]
  unfold CommandContext.tell
  dsimp only
  by_cases hhandler : ctx.hasHandler = true
  · rw [if_pos hhandler, if_pos hhandler]
  · rw [if_neg hhandler, if_neg hhandler]

/-- Where the call returns, only the output differs from `ctx'`. -/
theorem result (hf : Sends f ctx ps ctx₁) {out : Outbound} {ctx' : CommandContext}
    (h : f { ctx with out } = .ok ctx') : ctx' = { ctx₁ with out := ctx'.out } := by
  rw [hf out] at h
  cases hpush : out.pushAll ps with
  | error e =>
      rw [hpush] at h
      exact absurd h nofun
  | ok out' =>
      rw [hpush] at h
      rw [← Except.ok.inj h]

theorem accounted (hf : Sends f ctx ps ctx₁) (hlight : ∀ p ∈ ps, ∃ header, p.Light header)
    {h₀ : OutHistory} {pushed : List Packet} (hout : Accounted h₀ pushed ctx.out) :
    ∃ out, f ctx = .ok { ctx₁ with out } ∧ Accounted h₀ (pushed ++ ps) out := by
  obtain ⟨out, hpush, hout'⟩ := pushAll_light hout ps hlight
  refine ⟨out, ?_, hout'⟩
  have hcall := hf ctx.out
  rw [hpush] at hcall
  exact hcall

end Sends

/-- A message as `newMessage` makes it where it fits. -/
def message (capacity : Nat) (header : RtmpMsgHeader) (body : List UInt8) : Packet where
  capacity := capacity
  data := body
  ext := some { header with msgLen := UInt32.ofNat body.length }

theorem newMessage_fits {capacity : Nat} {header : RtmpMsgHeader} {body : List UInt8}
    (h : body.length ≤ capacity) :
    newMessage capacity header body = .ok (message capacity header body) :=
  (newMessage_eq capacity header body).trans (if_pos h)

theorem message_light {capacity : Nat} {header : RtmpMsgHeader} {body : List UInt8}
    (hlow : header.csId < 64) (hpos : 0 < body.length) (hfit : body.length ≤ 1024) :
    (message capacity header body).Light { header with msgLen := UInt32.ofNat body.length } := by
  have hlen : (UInt32.ofNat body.length).toNat = body.length := by
    rw [UInt32.toNat_ofNat']
    exact Nat.mod_eq_of_lt (by omega)
  refine ⟨⟨rfl, hlen, hpos⟩, hlow, ?_⟩
  dsimp only
  rw [hlen]
  unfold continuations
  omega

theorem writeUint32T_length (v : UInt32) : (BytesWriter.writeUint32T v).length = 4 :=
  beBytes_length 4 v.toNat

def ackWindowsSizeMessage (ackSize : Int32) : Packet :=
  message 64 (controlHeader kRtmpMsgTypeWindowACKSize) (BytesWriter.writeUint32T ackSize.toUInt32)

def setPeerBandwidthMessage (ackSize : Int32) : Packet :=
  message 64 (controlHeader kRtmpMsgTypeSetPeerBW) (BytesWriter.writeUint32T ackSize.toUInt32 ++ [0x02])

def setChunkSizeMessage : Packet :=
  message 64 (controlHeader kRtmpMsgTypeChunkSize) (BytesWriter.writeUint32T (UInt32.ofNat outChunkSize.toNat))

def statusMessage (code description : List UInt8) : Packet :=
  message 1024 (commandHeader 1)
    (AMFAny.encodeString (text "onStatus") ++ (AMFAny.encodeNumber (whole 0) ++ (amfNull ++ (amfObject ++
      (AMFAny.encodeNamedString (text "level") (text "status") ++ (AMFAny.encodeNamedString (text "code") code ++
        (AMFAny.encodeNamedString (text "description") description ++ amfObjectEnd)))))))

def playStatus : Packet := statusMessage (text "NetStream.Play.Start") (text "Start playing")
def publishStatus : Packet := statusMessage (text "NetStream.Publish.Start")
    (text "Start publishing")

/-- The body of `SendUserCtrlMessage` for a stream that begins: the value has taken the place of the type. -/
def streamBeginMessage : Packet :=
  message 64 (controlHeader kRtmpMsgTypeUserControl) [0, 0, 0, 1, 0, 0]

/-- The arguments of the answer to a createStream command. -/
def createStreamResult (id : UInt64) : List AMFArgument :=
  [.string (text "_result"), .number id, .null, .number (whole kRtmpMsID1.toUInt64)]

theorem createStreamResult_fits (id : UInt64) :
    ((createStreamResult id).flatMap AMFArgument.encode).length ≤ 1024 := by
  have hlen : (AMFArgument.number id).encode.length = 9 := by
    rw [AMFArgument.encode, AMFArgument.body, List.length_cons, beBytes_length]
  simp only [createStreamResult, List.flatMap_cons, List.flatMap_nil, List.length_append, hlen]
  decide

def createStreamMessage (id : UInt64) : Packet :=
  message 1024 (commandHeader 0) ((createStreamResult id).flatMap AMFArgument.encode)

def connectResultMessage (amf3 : Bool) : Packet :=
  (CommandContext.connectResult amf3).toOption.getD { capacity := 0 }

theorem connectResult_eq (amf3 : Bool) :
    CommandContext.connectResult amf3 = .ok (connectResultMessage amf3) := by
  obtain ⟨packet, hpacket⟩ : ∃ packet, CommandContext.connectResult amf3 = .ok packet := by
    refine ⟨_, newMessage_fits ?_⟩
    cases amf3 with
    | false => decide +kernel
    | true => decide +kernel
  rw [connectResultMessage, hpacket]
  rfl

/-- What `HandleConnect` sends. -/
def connectReplies (ackSize : Int32) (amf3 : Bool) : List Packet :=
  [ackWindowsSizeMessage ackSize, setPeerBandwidthMessage ackSize, setChunkSizeMessage, connectResultMessage amf3]

theorem connectReplies_light (ackSize : Int32) (amf3 : Bool) :
    ∀ p ∈ connectReplies ackSize amf3, ∃ header, p.Light header := by
  intro p hp
  simp only [connectReplies, List.mem_cons, List.not_mem_nil, or_false] at hp
  rcases hp with rfl | rfl | rfl | rfl
  · have hlen := writeUint32T_length ackSize.toUInt32
    exact ⟨_, message_light (by decide) (by omega) (by omega)⟩
  · have hlen : (BytesWriter.writeUint32T ackSize.toUInt32 ++ [0x02]).length = 5 := by
      rw [List.length_append, writeUint32T_length]
      rfl
    exact ⟨_, message_light (by decide) (by omega) (by omega)⟩
  · exact ⟨_, message_light (by decide) (by decide) (by decide)⟩
  · obtain ⟨packet, header, hpacket, hlight⟩ : ∃ packet header, CommandContext.connectResult amf3 = .ok packet ∧
        packet.Light header := by
      cases amf3 with
      | false => exact newMessage_light 0 (by decide +kernel) (by decide +kernel)
      | true => exact newMessage_light 0 (by decide +kernel) (by decide +kernel)
    rw [connectResult_eq] at hpacket
    rw [Except.ok.inj hpacket]
    exact ⟨header, hlight⟩

theorem createStreamMessage_light (id : UInt64) :
    ∃ header, (createStreamMessage id).Light header := by
  refine ⟨_, message_light (by decide) ?_ (createStreamResult_fits id)⟩
  simp only [createStreamResult, List.flatMap_cons, List.length_append, AMFArgument.encode,
    List.length_cons]
  omega

theorem publishStatus_light : ∃ header, publishStatus.Light header :=
  ⟨_, message_light (by decide) (by decide) (by decide)⟩

namespace CommandContext
section Handlers
variable (ctx : CommandContext) {obj : List AMFAny}

theorem sendStatus_sends (ctx : CommandContext) (code description : List UInt8)
    (hfit : (statusMessage code description).data.length ≤ 1024) :
    Sends (·.sendStatus (text "status") code description) ctx [statusMessage code description] ctx :=
  Sends.sendMessage (newMessage_fits hfit) ctx

theorem takeCommandObject_out {ctx ctx₁ : CommandContext} {p : AMFAny} {amf3 : Bool}
    (h : ctx.takeCommandObject p = .ok (ctx₁, amf3)) (out : Outbound) :
    ({ ctx with out } : CommandContext).takeCommandObject p = .ok ({ ctx₁ with out }, amf3) := by
  obtain ⟨app, tcUrl, rfl, htaken⟩ := takeCommandObject_ok h
  exact htaken { ctx with out } rfl rfl

theorem handleConnect_sends {ctx ctx₁ : CommandContext} {p : AMFAny} {amf3 : Bool}
    (hp : AMFObject.property obj 2 = some p) (htake : ctx.takeCommandObject p = .ok (ctx₁, amf3)) :
    Sends (·.handleConnect obj) ctx (connectReplies ctx₁.ackSize amf3) ctx₁ := by
  have hack : Sends sendAckWindowsSize ctx₁ [ackWindowsSizeMessage ctx₁.ackSize] ctx₁ :=
    fun out => Sends.sendMessage (newMessage_fits (by rw [writeUint32T_length]; decide)) ctx₁ out
  have hbandwidth : Sends sendSetPeerBandwidth ctx₁ [setPeerBandwidthMessage ctx₁.ackSize] ctx₁ :=
    fun out => Sends.sendMessage (newMessage_fits (by rw [List.length_append, writeUint32T_length]; decide)) ctx₁ out
  have hchunk : Sends sendSetChunkSize ctx₁ [setChunkSizeMessage] ctx₁ := Sends.sendMessage rfl ctx₁
  have hresult : Sends (·.sendMessage (connectResult amf3)) ctx₁ [connectResultMessage amf3] ctx₁ :=
    Sends.sendMessage (connectResult_eq amf3) ctx₁
  have hall := hack.bind (hbandwidth.bind (hchunk.bind hresult))
  intro out
  unfold handleConnect
  dsimp only
  rw [hp]
  change (({ ctx with out } : CommandContext).takeCommandObject p >>= _) = _
  rw [takeCommandObject_out htake out]
  exact hall out

theorem handleCreateStream_sends {p : AMFAny} (hp : AMFObject.property obj 1 = some p) :
    Sends (·.handleCreateStream obj) ctx [createStreamMessage p.num] ctx := by
  intro out
  unfold handleCreateStream
  dsimp only
  rw [hp]
  exact Sends.sendMessage (newMessage_fits (createStreamResult_fits p.num)) ctx out

theorem handlePublish_sends {name : List UInt8} (hname : streamName obj = .ok name) :
    Sends (·.handlePublish obj) ctx [publishStatus]
      (({ ctx with name, isPlayer := false } : CommandContext).tell (.onPublish ctx.sessionName ctx.param)) := by
  have hstatus := sendStatus_sends { ctx with name, isPlayer := false } (text "NetStream.Publish.Start")
    (text "Start publishing") (by decide)
  have htell := Sends.tell { ctx with name, isPlayer := false }
    (fun ctx => .onPublish ctx.sessionName ctx.param) fun out => rfl
  intro out
  unfold handlePublish
  dsimp only
  rw [hname, ok_bind]
  exact (hstatus.bind htell) out

theorem handlePlay_sends {name : List UInt8} (hname : streamName obj = .ok name) :
    Sends (·.handlePlay obj) ctx [streamBeginMessage, playStatus]
      ((let ctx := { ({ ctx with name } : CommandContext).parseNameAndTcUrl with isPlayer := true }
        ctx.tell (.onPlay ctx.sessionName ctx.param))) := by
  have hbegin : Sends (·.sendUserCtrlMessage .streamBegin 1 0)
      { ({ ctx with name } : CommandContext).parseNameAndTcUrl with isPlayer := true }
      [streamBeginMessage] _ :=
    Sends.sendMessage rfl _
  have hstatus := sendStatus_sends { ({ ctx with name } : CommandContext).parseNameAndTcUrl with isPlayer := true }
    (text "NetStream.Play.Start") (text "Start playing") (by decide)
  have htell := Sends.tell { ({ ctx with name } : CommandContext).parseNameAndTcUrl with isPlayer := true }
    (fun ctx => .onPlay ctx.sessionName ctx.param) fun out => rfl
  intro out
  unfold handlePlay
  dsimp only
  rw [hname, ok_bind]
  exact (hbegin.bind (hstatus.bind htell)) out

/-- A connect command that lacks nothing. -/
theorem handleConnect_replies (hhas : Command.connect.has obj = true) :
    ∃ ctx₁ amf3, Sends (·.handleConnect obj) ctx (connectReplies ctx₁.ackSize amf3) ctx₁ := by
  obtain ⟨p, hp, htake⟩ := (Option.any_eq_true _ _).mp hhas
  suffices h : ∃ ctx₁ amf3, ctx.takeCommandObject p = .ok (ctx₁, amf3) by
    obtain ⟨ctx₁, amf3, h⟩ := h
    exact ⟨ctx₁, amf3, handleConnect_sends hp h⟩
  unfold takeCommandObject
  cases hobj : p.obj with
  | none => exact ⟨ctx, false, rfl⟩
  | some sub =>
      rw [hobj] at htake
      obtain ⟨app, happ, htake⟩ := (Option.any_eq_true _ _).mp htake
      obtain ⟨tcUrl, htcUrl, -⟩ := (Option.any_eq_true _ _).mp htake
      dsimp only
      rw [happ, htcUrl]
      exact ⟨_, _, rfl⟩

theorem handlePublish_replies (hhas : Command.publish.has obj = true) :
    ∃ ctx', Sends (·.handlePublish obj) ctx [publishStatus] ctx' := by
  obtain ⟨tranId, htranId, hname⟩ := (Option.any_eq_true _ _).mp hhas
  obtain ⟨p, hp, -⟩ := (Option.any_eq_true _ _).mp hname
  have hread : streamName obj = .ok p.str := by
    unfold streamName
    rw [htranId, hp]
    rfl
  exact ⟨_, handlePublish_sends ctx hread⟩

end Handlers
end CommandContext
end TmmsServer
