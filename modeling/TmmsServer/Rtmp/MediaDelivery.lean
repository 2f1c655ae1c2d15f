import TmmsServer.Rtmp.MessageDispatch

/-!
# What the handler of a server hears

`OnRecv` against the media messages a connection completes.
-/
namespace TmmsServer
open Lib.Feed

/-- The packet type of a media message. -/
def mediaType (msgType : Nat) : Option Nat :=
  if msgType = kRtmpMsgTypeAudio.toNat then some kPacketTypeAudio
  else if msgType = kRtmpMsgTypeVideo.toNat then some kPacketTypeVideo
  else if msgType = kRtmpMsgTypeAMFMeta.toNat then some kPacketTypeMeta
  else if msgType = kRtmpMsgTypeAMF3Meta.toNat then some kPacketTypeMeta3
  else none

/-- What a handler should get of a completed message. -/
def mediaOf (packet : Packet) : Option Packet :=
  (mediaType packet.type).map fun type => { packet with type }

/-- No test of the chain takes up a type that an earlier one has set. -/
theorem setPacketType_eq (packet : Packet) :
    setPacketType packet = (mediaOf packet).getD packet := by
  unfold setPacketType mediaOf mediaType
  by_cases haudio : packet.type = kRtmpMsgTypeAudio.toNat
  · rw [if_pos haudio, if_pos haudio]
    rfl
  by_cases hvideo : packet.type = kRtmpMsgTypeVideo.toNat
  · dsimp only
    rw [if_neg haudio, if_pos hvideo, if_neg haudio, if_pos hvideo]
    rfl
  by_cases hmeta : packet.type = kRtmpMsgTypeAMFMeta.toNat
  · dsimp only
    rw [if_neg haudio, if_neg hvideo, if_pos hmeta, if_neg haudio, if_neg hvideo, if_pos hmeta]
    rfl
  dsimp only
  rw [if_neg haudio, if_neg hvideo, if_neg hmeta, if_neg haudio, if_neg hvideo, if_neg hmeta]
  split
  · rfl
  · rfl

/-- The commands have no other handler than before. -/
def KeepsHandler (handler : Bool) (r : Checked CommandContext) : Prop :=
  ∀ ctx, r = .ok ctx → ctx.hasHandler = handler

namespace KeepsHandler
variable {handler : Bool} {ctx : CommandContext}

theorem ok (h : ctx.hasHandler = handler) : KeepsHandler handler (.ok ctx) := by
  intro ctx' hctx'
  rw [← Except.ok.inj hctx', h]

theorem bind {α : Type} {r : Checked α} {f : α → Checked CommandContext}
    (hf : ∀ a, r = .ok a → KeepsHandler handler (f a)) : KeepsHandler handler (r >>= f) := by
  intro ctx hctx
  obtain ⟨a, ha, hctx⟩ := of_bind_ok hctx
  exact hf a ha ctx hctx

theorem sendMessage (h : ctx.hasHandler = handler) (message : Checked Packet) :
    KeepsHandler handler (ctx.sendMessage message) := by
  intro ctx' hctx'
  refine Eq.trans ?_ h
  refine (show KeepsHandler ctx.hasHandler (ctx.sendMessage message) from bind ?_) ctx' hctx'
  intro packet _
  exact bind fun out _ => ok rfl

theorem send {message : Checked Packet} {f : CommandContext → Checked CommandContext}
    (h : ctx.hasHandler = handler)
    (hf : ∀ ctx', ctx'.hasHandler = handler → KeepsHandler handler (f ctx')) :
    KeepsHandler handler (ctx.sendMessage message >>= f) :=
  bind fun ctx' hctx' => hf ctx' (sendMessage h message ctx' hctx')

theorem tell (h : ctx.hasHandler = handler) (call : HandlerCall) :
    KeepsHandler handler (.ok (ctx.tell call)) := by
  apply ok
  unfold CommandContext.tell
  split
  · exact h
  · exact h

end KeepsHandler

section Commands
variable (ctx : CommandContext) (obj : List AMFAny)

theorem handleConnect_handler : KeepsHandler ctx.hasHandler (ctx.handleConnect obj) := by
  apply KeepsHandler.bind
  intro p _
  apply KeepsHandler.bind
  rintro ⟨ctx₁, amf3⟩ h₁
  have hsame : ctx₁.hasHandler = ctx.hasHandler := by
    obtain ⟨app, tcUrl, rfl, -⟩ := CommandContext.takeCommandObject_ok h₁
    rfl
  refine KeepsHandler.send hsame fun ctx₂ h₂ => ?_
  refine KeepsHandler.send h₂ fun ctx₃ h₃ => ?_
  exact KeepsHandler.send h₃ fun ctx₄ h₄ => KeepsHandler.sendMessage h₄ _

theorem handleCreateStream_handler : KeepsHandler ctx.hasHandler (ctx.handleCreateStream obj) :=
  KeepsHandler.bind fun _ _ => KeepsHandler.sendMessage rfl _

theorem handlePlay_handler : KeepsHandler ctx.hasHandler (ctx.handlePlay obj) := by
  apply KeepsHandler.bind
  intro name _
  refine KeepsHandler.send rfl fun ctx₁ h₁ => ?_
  exact KeepsHandler.send h₁ fun ctx₂ h₂ => KeepsHandler.tell h₂ _

theorem handlePublish_handler : KeepsHandler ctx.hasHandler (ctx.handlePublish obj) := by
  apply KeepsHandler.bind
  intro name _
  exact KeepsHandler.send rfl fun ctx₁ h₁ => KeepsHandler.tell h₁ _

theorem handleResult_handler : KeepsHandler ctx.hasHandler (ctx.handleResult obj) := by
  apply KeepsHandler.bind
  intro p _
  split
  · exact KeepsHandler.sendMessage rfl _
  · split
    · split
      · exact KeepsHandler.sendMessage rfl _
      · exact KeepsHandler.sendMessage rfl _
    · split
      · exact KeepsHandler.tell rfl _
      · exact KeepsHandler.ok rfl

theorem handleError_handler : KeepsHandler ctx.hasHandler (ctx.handleError obj) := by
  apply KeepsHandler.bind
  intro p _
  apply KeepsHandler.bind
  intro sub _
  exact KeepsHandler.bind fun _ _ => KeepsHandler.ok rfl

theorem handleAmfCommand_handler [Host] (body : List UInt8) (amf3 : Bool) :
    KeepsHandler ctx.hasHandler (ctx.handleAmfCommand body amf3) := by
  apply KeepsHandler.bind
  intro r _
  unfold CommandContext.dispatchCommand
  split
  · exact KeepsHandler.ok rfl
  · apply KeepsHandler.bind
    intro p _
    split
    · exact KeepsHandler.ok rfl
    next command _ =>
      cases command with
      | connect => exact handleConnect_handler ctx r.properties
      | createStream => exact handleCreateStream_handler ctx r.properties
      | result => exact handleResult_handler ctx r.properties
      | error => exact handleError_handler ctx r.properties
      | play => exact handlePlay_handler ctx r.properties
      | publish => exact handlePublish_handler ctx r.properties

theorem handleUserMessage_handler (packet : Packet) :
    KeepsHandler ctx.hasHandler (ctx.handleUserMessage packet) := by
  unfold CommandContext.handleUserMessage
  split
  · exact KeepsHandler.ok rfl
  · apply KeepsHandler.bind
    intro type _
    apply KeepsHandler.bind
    intro value _
    split
    · exact KeepsHandler.sendMessage rfl _
    · exact KeepsHandler.ok rfl

theorem handleAckWindowSize_handler (packet : Packet) :
    KeepsHandler ctx.hasHandler (ctx.handleAckWindowSize packet) := by
  unfold CommandContext.handleAckWindowSize
  split
  · exact KeepsHandler.bind fun _ _ => KeepsHandler.ok rfl
  · exact KeepsHandler.ok rfl

end Commands

/-- What `OnRecv` is called with for a message. -/
def told (handler : Bool) (packet : Packet) : List Packet :=
  if handler then (mediaOf packet).toList else []

/-- A call of `MessageComplete` tells the handler of a media message, and of no other. -/
def Tells (handler : Bool) (packet : Packet) (received : List Packet) (r : Checked MessageContext) : Prop :=
  match r with
  | .ok ctx => ctx.commands.hasHandler = handler ∧ ctx.received = received ++ told handler packet
  | .error _ => mediaOf packet = none

theorem told_none {handler : Bool} {packet : Packet} (h : mediaOf packet = none) :
    told handler packet = [] := by
  unfold told
  rw [h]
  exact ite_self _

theorem mediaOf_none {packet : Packet} (haudio : packet.type ≠ kRtmpMsgTypeAudio.toNat)
    (hvideo : packet.type ≠ kRtmpMsgTypeVideo.toNat) (hmeta : packet.type ≠ kRtmpMsgTypeAMFMeta.toNat)
    (hmeta3 : packet.type ≠ kRtmpMsgTypeAMF3Meta.toNat) : mediaOf packet = none := by
  unfold mediaOf mediaType
  rw [if_neg haudio, if_neg hvideo, if_neg hmeta, if_neg hmeta3]
  rfl

theorem mediaOf_control {packet : Packet} {type : UInt8} (htype : packet.type = type.toNat)
    (hother : type ∉ [kRtmpMsgTypeAudio, kRtmpMsgTypeVideo, kRtmpMsgTypeAMFMeta, kRtmpMsgTypeAMF3Meta]) :
    mediaOf packet = none := by
  have hne : ∀ t : UInt8, t ∈ [kRtmpMsgTypeAudio, kRtmpMsgTypeVideo, kRtmpMsgTypeAMFMeta, kRtmpMsgTypeAMF3Meta] →
      packet.type ≠ t.toNat := by
    intro t ht hsame
    have heq : type = t := UInt8.toNat_inj.mp (htype.symm.trans hsame)
    exact hother (heq ▸ ht)
  exact mediaOf_none (hne _ (by decide)) (hne _ (by decide)) (hne _ (by decide)) (hne _ (by decide))

theorem tells_andCommands {ctx : MessageContext} {packet : Packet} {r : Checked CommandContext}
    (hmedia : mediaOf packet = none) (hr : KeepsHandler ctx.commands.hasHandler r) :
    Tells ctx.commands.hasHandler packet ctx.received (ctx.andCommands r) := by
  cases r with
  | error e => exact hmedia
  | ok commands => exact ⟨hr commands rfl, by rw [told_none hmedia, List.append_nil]⟩

theorem tells_nothing {ctx : MessageContext} {packet : Packet} (hmedia : mediaOf packet = none) :
    Tells ctx.commands.hasHandler packet ctx.received (.ok ctx) :=
  ⟨rfl, by rw [told_none hmedia, List.append_nil]⟩

section Dispatch
variable [Host]

theorem messageComplete_tells (ctx : MessageContext) (packet : Packet) :
    Tells ctx.commands.hasHandler packet ctx.received (ctx.messageComplete packet) := by
  unfold MessageContext.messageComplete
  split
  next htype => exact tells_nothing (mediaOf_control htype (by decide))
  split
  next htype => exact tells_nothing (mediaOf_control htype (by decide))
  split
  next htype => exact tells_andCommands (mediaOf_control htype (by decide)) (handleUserMessage_handler _ _)
  split
  next htype => exact tells_andCommands (mediaOf_control htype (by decide)) (handleAckWindowSize_handler _ _)
  split
  next htype => exact tells_andCommands (mediaOf_control htype (by decide)) (handleAmfCommand_handler _ _ _)
  split
  next htype => exact tells_andCommands (mediaOf_control htype (by decide)) (handleAmfCommand_handler _ _ _)
  split
  next hmedia =>
    obtain ⟨media, hsome⟩ : ∃ media, mediaOf packet = some media := by
      unfold mediaOf mediaType
      rcases hmedia with htype | htype | htype | htype
      all_goals
        rw [htype]
        exact ⟨_, rfl⟩
    unfold MessageContext.onRecv
    rw [setPacketType_eq, hsome]
    cases hhandler : ctx.commands.hasHandler with
    | true =>
        refine ⟨hhandler, ?_⟩
        unfold told
        rw [hsome]
        rfl
    | false => exact ⟨hhandler, (List.append_nil _).symm⟩
  next hother =>
    simp only [not_or] at hother
    exact tells_nothing (mediaOf_none hother.2.2.1 hother.2.2.2 hother.1 hother.2.1)

/-- The handler was told of the media messages completed so far, in their order, if there is one. -/
structure Heard (handler : Bool) (s : MessageSession) : Prop where
  keeps : s.ctx.commands.hasHandler = handler
  received : s.ctx.received = s.completed.flatMap (told handler)

theorem complete_heard {handler : Bool} {s : MessageSession} (h : Heard handler s)
    (packet : Packet) : Heard handler (s.complete packet) := by
  have htells := messageComplete_tells s.ctx packet
  rw [h.keeps] at htells
  unfold MessageSession.complete
  split
  · exact h
  · cases hr : s.ctx.messageComplete packet with
    | ok ctx =>
        rw [hr] at htells
        refine ⟨htells.1, ?_⟩
        rw [htells.2, h.received, List.flatMap_append, List.flatMap_singleton]
    | error e =>
        rw [hr] at htells
        refine ⟨h.keeps, ?_⟩
        rw [List.flatMap_append, List.flatMap_singleton, told_none htells, List.append_nil]
        exact h.received

theorem onMessage_heard {handler : Bool} {s : MessageSession} (h : Heard handler s)
    (piece : List UInt8) : Heard handler (s.onMessage piece) := by
  have hstop : ∀ {s : MessageSession} (fin : Except Fault (RtmpIn × List UInt8)), Heard handler s →
      Heard handler (s.stop fin) := by
    intro s fin hs
    unfold MessageSession.stop
    split
    · exact hs
    · split
      · exact ⟨hs.keeps, hs.received⟩
      · exact ⟨hs.keeps, hs.received⟩
  have hall : ∀ (packets : List Packet) {s : MessageSession}, Heard handler s →
      Heard handler (packets.foldl MessageSession.complete s) := by
    intro packets
    induction packets with
    | nil => exact id
    | cons packet packets ih => exact fun hs => ih (complete_heard hs packet)
  unfold MessageSession.onMessage
  split
  · exact h
  · exact hstop _ (hall _ h)

theorem run_heard {handler : Bool} {s : MessageSession} (h : Heard handler s)
    (pieces : List (List UInt8)) : Heard handler (s.run pieces) := by
  induction pieces generalizing s with
  | nil => exact h
  | cons piece pieces ih => exact ih (onMessage_heard h piece)

/-- Over every run of a connection the handler of the server hears of the media messages just when
there are none. -/
theorem serverMedia_iff (server : RtmpServer) (pieces : List (List UInt8)) :
    (server.onNewConnection.run pieces).ctx.received =
        (server.onNewConnection.run pieces).completed.flatMap (fun packet => (mediaOf packet).toList) ↔
      ∀ packet ∈ (server.onNewConnection.run pieces).completed, mediaOf packet = none := by
  have hstart : Heard false server.onNewConnection := ⟨rfl, rfl⟩
  have hheard := run_heard hstart pieces
  have hnone : (server.onNewConnection.run pieces).ctx.received = [] := by
    rw [hheard.received]
    exact List.flatMap_eq_nil_iff.mpr fun packet _ => rfl
  rw [hnone]
  constructor
  · intro h packet hmem
    have hnil := List.flatMap_eq_nil_iff.mp h.symm packet hmem
    exact Option.toList_eq_nil_iff.mp hnil
  · intro h
    exact (List.flatMap_eq_nil_iff.mpr fun packet hmem => by rw [h packet hmem]; rfl).symm

end Dispatch

/-- A message of one audio byte on chunk stream 4. -/
def oneAudioByte : List UInt8 := [4, 0, 0, 0, 0, 0, 1, 8, 1, 0, 0, 0, 0xAF]

theorem oneAudioByte_completes :
    (@MessageSession.run ⟨fun _ => 0⟩ ({} : RtmpServer).onNewConnection [oneAudioByte]).completed = [
      { type := 8, timestamp := 0, capacity := 1, data := [0xAF], ext := some ⟨4, 0, 1, 8, 1⟩ }] := by
  decide +kernel

/-- The handler of a server is not told of an audio message. -/
theorem serverMedia_lost :
    ¬ ∀ (_ : Host) (server : RtmpServer) (pieces : List (List UInt8)), server.hasHandler = true →
      (server.onNewConnection.run pieces).ctx.received =
        (server.onNewConnection.run pieces).completed.flatMap (fun packet => (mediaOf packet).toList) := by
  intro h
  have hsame := h ⟨fun _ => 0⟩ {} [oneAudioByte] rfl
  have hstart : Heard false ({} : RtmpServer).onNewConnection := ⟨rfl, rfl⟩
  rw [(@run_heard ⟨fun _ => 0⟩ false _ hstart [oneAudioByte]).received,
    oneAudioByte_completes] at hsame
  exact absurd hsame (by decide)

end TmmsServer
