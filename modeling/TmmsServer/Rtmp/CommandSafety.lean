import TmmsServer.Rtmp.AmfFaults
import TmmsServer.Rtmp.Command

/-!
# Null pointers in the command layer

`Property` and `Object` give null pointers for what a command lacks, and the
handlers use most of them without a test. No other step of a command can end at
a null pointer. `Decode` may go on behind the message, so that what a command
lacks depends on the memory there.
-/
namespace TmmsServer

section Steps
variable {α β : Type}

/-- The run does not end at a null pointer. -/
def NotNull (x : Checked α) : Prop := x ≠ .error .nullDeref

namespace NotNull

theorem ok (a : α) : NotNull (.ok a) := nofun

theorem error {e : Fault} (h : NotNull (.error e : Checked α)) :
    NotNull (.error e : Checked β) := by
  intro hnull
  exact h (congrArg Except.error (Except.error.inj hnull))

theorem bind {x : Checked α} {f : α → Checked β} (hx : NotNull x)
    (hf : ∀ a, NotNull (f a)) : NotNull (x >>= f) := by
  cases x with
  | ok a => exact hf a
  | error e =>
      rw [error_bind]
      exact hx.error

theorem map {x : Checked α} (f : α → β) (hx : NotNull x) : NotNull (x.map f) := by
  cases x with
  | ok a => exact ok (f a)
  | error e => exact hx.error

end NotNull

/-- The run ends at a null pointer exactly when `need` fails. -/
def Needs (need : Bool) (x : Checked α) : Prop := x = .error .nullDeref ↔ need = false

namespace Needs

theorem of_notNull {x : Checked α} (h : NotNull x) : Needs true x :=
  ⟨fun hx => absurd hx h, nofun⟩

theorem bind {need : Bool} {x : Checked α} {f : α → Checked β} (hx : Needs need x)
    (hf : ∀ a, NotNull (f a)) : Needs need (x >>= f) := by
  cases need with
  | true => exact of_notNull (NotNull.bind (fun h => absurd (hx.mp h) nofun) hf)
  | false =>
      rw [hx.mpr rfl]
      exact ⟨fun _ => rfl, fun _ => rfl⟩

/-- A pointer used without a test, and what else is needed behind it. -/
theorem deref {p : Option α} {need : α → Bool} {f : α → Checked β}
    (hf : ∀ a, Needs (need a) (f a)) : Needs (p.any need) (deref p >>= f) := by
  cases p with
  | none => exact ⟨fun _ => rfl, fun _ => rfl⟩
  | some a => exact hf a

end Needs

end Steps

theorem OnlyLeaves.notNull {α : Type} {x : Checked α} (h : OnlyLeaves x) : NotNull x :=
  fun hx => absurd (h _ hx) nofun

section Output

theorem writeBytes_notNull (data : List UInt8) (off : Nat) (bs : List UInt8) : NotNull (writeBytes data off bs) := by
  unfold writeBytes
  split
  · exact NotNull.ok _
  · exact nofun

theorem putHeader_notNull (s : RtmpOut) (bs : List UInt8) : NotNull (s.putHeader bs) := by
  have hwrite : NotNull (s.outBuffer.write s.outCurrent bs) := by
    unfold OutBuffer.write
    split
    · exact NotNull.ok _
    · exact nofun
  exact hwrite.bind fun _ => NotNull.ok _

theorem bodyLoop_notNull (slot : Nat) (msgLen : UInt32) (next : List UInt8) (fuel : Nat) (s : RtmpOut)
    (bytesParsed : Int) : NotNull (RtmpOut.bodyLoop slot msgLen next fuel s bytesParsed) := by
  induction fuel generalizing s bytesParsed with
  | zero => exact NotNull.ok _
  | succ fuel ih =>
      unfold RtmpOut.bodyLoop
      dsimp only
      split
      · split
        · exact NotNull.ok _
        · exact (putHeader_notNull _ _).bind fun s => ih s _
      · exact NotNull.ok _

theorem buildChunk_notNull (s : RtmpOut) (packet : Packet) (timestamp : UInt32) (fmt0 : Bool) :
    NotNull (s.buildChunk packet timestamp fmt0) := by
  unfold RtmpOut.buildChunk
  split
  · exact NotNull.ok _
  · refine NotNull.bind ?_ fun _ => NotNull.ok _
    exact (putHeader_notNull _ _).bind fun _ => bodyLoop_notNull _ _ _ _ _ _

theorem sendLoop_notNull (n : Nat) (s : RtmpOut) : NotNull (RtmpOut.sendLoop n s) := by
  induction n generalizing s with
  | zero => exact NotNull.ok _
  | succ n ih =>
      unfold RtmpOut.sendLoop
      split
      · exact NotNull.ok _
      · exact (buildChunk_notNull _ _ _ _).bind fun r => ih r.1

theorem newMessage_notNull (capacity : Nat) (header : RtmpMsgHeader) (body : List UInt8) :
    NotNull (newMessage capacity header body) := by
  rw [newMessage_eq]
  split
  · exact NotNull.ok _
  · exact nofun

namespace CommandContext
variable (ctx : CommandContext)

theorem pushOutQueue_notNull (packet : Packet) : NotNull (ctx.pushOutQueue packet) := by
  refine NotNull.bind ?_ fun _ => NotNull.ok _
  unfold Outbound.pushOutQueue Outbound.send
  split
  · exact NotNull.ok _
  · exact (sendLoop_notNull _ _).bind fun _ => NotNull.ok _

theorem sendMessage_notNull {message : Checked Packet} (h : NotNull message) :
    NotNull (ctx.sendMessage message) :=
  h.bind fun packet => ctx.pushOutQueue_notNull packet

theorem send_notNull (capacity : Nat) (header : RtmpMsgHeader) (body : List UInt8) :
    NotNull (ctx.sendMessage (newMessage capacity header body)) :=
  ctx.sendMessage_notNull (newMessage_notNull capacity header body)

theorem sendUserCtrlMessage_notNull (type : RtmpEventType) (value1 value2 : UInt32) :
    NotNull (ctx.sendUserCtrlMessage type value1 value2) := by
  apply sendMessage_notNull
  refine NotNull.bind ?_ fun body => newMessage_notNull _ _ body
  apply NotNull.bind (writeBytes_notNull _ _ _)
  intro body
  apply NotNull.bind (writeBytes_notNull _ _ _)
  intro body
  cases type with
  | setBufferLength => exact (writeBytes_notNull _ _ _).bind fun _ => NotNull.ok _
  | _ => exact NotNull.ok _

end CommandContext
end Output

/-- What the handler of a command takes without a test is there. -/
def Command.has : Command → List AMFAny → Bool
  | connect, obj => (AMFObject.property obj 2).any fun p => p.obj.all fun sub =>
      (AMFObject.propertyNamed (text "app") sub).any fun _ =>
        (AMFObject.propertyNamed (text "tcUrl") sub).any fun _ => true
  | createStream, obj | result, obj => (AMFObject.property obj 1).any fun _ => true
  | error, obj => (AMFObject.property obj 3).any fun p => p.obj.any fun sub =>
      (AMFObject.propertyNamed (text "description") sub).any fun _ => true
  | play, obj | publish, obj =>
      (AMFObject.property obj 1).any fun _ => (AMFObject.property obj 3).any fun _ => true

/-- There is no command name, or the command lacks what its handler takes. -/
def lacking (obj : List AMFAny) : Bool :=
  match AMFObject.property obj 0 with
  | none => true
  | some p => (Command.find p.str).any fun command => !command.has obj

section Handlers
variable (ctx : CommandContext) (obj : List AMFAny)

namespace CommandContext

theorem handleConnect_needs : Needs (Command.connect.has obj) (ctx.handleConnect obj) := by
  apply Needs.deref
  intro p
  refine Needs.bind ?_ fun taken => ?_
  · unfold takeCommandObject
    cases p.obj with
    | none => exact Needs.of_notNull (NotNull.ok _)
    | some sub =>
        apply Needs.deref
        intro app
        apply Needs.deref
        intro tcUrl
        exact Needs.of_notNull (NotNull.ok _)
  · apply NotNull.bind (send_notNull _ _ _ _)
    intro ctx
    apply NotNull.bind (send_notNull _ _ _ _)
    intro ctx
    apply NotNull.bind (send_notNull _ _ _ _)
    intro ctx
    exact send_notNull _ _ _ _

theorem handleCreateStream_needs : Needs (Command.createStream.has obj)
    (ctx.handleCreateStream obj) := by
  apply Needs.deref
  intro p
  exact Needs.of_notNull (send_notNull _ _ _ _)

theorem handleResult_needs : Needs (Command.result.has obj) (ctx.handleResult obj) := by
  apply Needs.deref
  intro p
  apply Needs.of_notNull
  split
  · exact send_notNull _ _ _ _
  · split
    · split
      · exact send_notNull _ _ _ _
      · exact send_notNull _ _ _ _
    · split
      · exact NotNull.ok _
      · exact NotNull.ok _

theorem handleError_needs : Needs (Command.error.has obj) (ctx.handleError obj) := by
  apply Needs.deref
  intro p
  apply Needs.deref
  intro sub
  apply Needs.deref
  intro description
  exact Needs.of_notNull (NotNull.ok _)

theorem streamName_needs : Needs (Command.play.has obj) (streamName obj) := by
  apply Needs.deref
  intro tranId
  apply Needs.deref
  intro p
  exact Needs.of_notNull (NotNull.ok _)

theorem handlePlay_needs : Needs (Command.play.has obj) (ctx.handlePlay obj) := by
  refine (streamName_needs obj).bind fun name => ?_
  apply NotNull.bind (sendUserCtrlMessage_notNull _ _ _ _)
  intro ctx
  exact (send_notNull _ _ _ _).bind fun _ => NotNull.ok _

theorem handlePublish_needs : Needs (Command.publish.has obj) (ctx.handlePublish obj) := by
  refine (streamName_needs obj).bind fun name => ?_
  exact (send_notNull _ _ _ _).bind fun _ => NotNull.ok _

end CommandContext

theorem Command.handle_needs (command : Command) :
    Needs (command.has obj) (command.handle ctx obj) := by
  cases command with
  | connect => exact ctx.handleConnect_needs obj
  | createStream => exact ctx.handleCreateStream_needs obj
  | result => exact ctx.handleResult_needs obj
  | error => exact ctx.handleError_needs obj
  | play => exact ctx.handlePlay_needs obj
  | publish => exact ctx.handlePublish_needs obj

end Handlers

theorem Command.find_name (command : Command) : Command.find command.name = some command := by
  cases command with
  | connect => rfl
  | createStream => rfl
  | result => rfl
  | error => rfl
  | play => rfl
  | publish => rfl

section Dispatch
variable [Host]

/-- The properties of a command that was decoded. -/
def decodedCommand (body : List UInt8) (amf3 : Bool) : Option (List AMFAny) :=
  match CommandContext.decodeCommand body amf3 with
  | .ok r => if r.ret < 0 then none else some r.properties
  | .error _ => none

theorem of_decodedCommand {body : List UInt8} {amf3 : Bool} {obj : List AMFAny}
    (h : decodedCommand body amf3 = some obj) :
    ∃ r, CommandContext.decodeCommand body amf3 = .ok r ∧ ¬ r.ret < 0 ∧ r.properties = obj := by
  unfold decodedCommand at h
  cases hr : CommandContext.decodeCommand body amf3 with
  | error e =>
      rw [hr] at h
      exact absurd h nofun
  | ok r =>
      rw [hr] at h
      dsimp only at h
      split at h
      next => exact absurd h nofun
      next hret => exact ⟨r, rfl, hret, Option.some.inj h⟩

theorem handleAmfCommand_eq (ctx : CommandContext) {body : List UInt8} {amf3 : Bool}
    {obj : List AMFAny} {p : AMFAny}
    (hobj : decodedCommand body amf3 = some obj) (hp : AMFObject.property obj 0 = some p) :
    ctx.handleAmfCommand body amf3 =
      match Command.find p.str with
      | none => .ok ctx
      | some command => command.handle ctx obj := by
  obtain ⟨r, hr, hret, rfl⟩ := of_decodedCommand hobj
  rw [CommandContext.handleAmfCommand_decodes]
  unfold CommandContext.dispatchCommand
  rw [hr, ok_bind, if_neg hret, hp]
  rfl

theorem handleAmfCommand_decoded (ctx : CommandContext) {body : List UInt8} {amf3 : Bool}
    {obj : List AMFAny} {p : AMFAny}
    {command : Command} (hobj : decodedCommand body amf3 = some obj)
    (hp : AMFObject.property obj 0 = some p)
    (hfind : Command.find p.str = some command) :
    ctx.handleAmfCommand body amf3 = command.handle ctx obj := by
  rw [handleAmfCommand_eq ctx hobj hp, hfind]

/-- The properties of a command that was decoded with the bytes `behind` in memory behind it. -/
def decodedCommandIn (behind body : List UInt8) (amf3 : Bool) : Option (List AMFAny) :=
  match CommandContext.decodeCommandIn behind body amf3 with
  | .ok r => if r.ret < 0 then none else some r.properties
  | .error _ => none

/-- Whatever lies behind it in memory, a command meets no null pointer, and one that lacks an argument
changes nothing. -/
structure Robust (ctx : CommandContext) (body : List UInt8) (amf3 : Bool) : Prop where
  noNull : ∀ behind, ctx.handleAmfCommandIn behind body amf3 ≠ .error .nullDeref
  dropped : ∀ behind obj, decodedCommandIn behind body amf3 = some obj → lacking obj = true →
    ctx.handleAmfCommandIn behind body amf3 = .ok ctx

theorem decodeCommandIn_leaves (behind body : List UInt8) (amf3 : Bool) :
    OnlyLeaves (CommandContext.decodeCommandIn behind body amf3) := by
  unfold CommandContext.decodeCommandIn
  split
  · exact decode_leaves _ _ _
  · exact decode_leaves _ _ _

omit [Host] in
theorem dispatchCommand_needs (ctx : CommandContext) {r : Decoded} (hret : ¬ r.ret < 0) :
    Needs (!lacking r.properties) (ctx.dispatchCommand r) := by
  unfold CommandContext.dispatchCommand lacking
  rw [if_neg hret]
  cases AMFObject.property r.properties 0 with
  | none => exact ⟨fun _ => rfl, fun _ => rfl⟩
  | some p =>
      dsimp only [deref]
      rw [ok_bind]
      cases Command.find p.str with
      | none => exact Needs.of_notNull (NotNull.ok _)
      | some command =>
          rw [Option.any_some, Bool.not_not]
          exact command.handle_needs ctx r.properties

/-- A command is dispatched to a null pointer exactly when it was decoded and is lacking. -/
theorem handleAmfCommandIn_needs (behind : List UInt8) (ctx : CommandContext) (body : List UInt8) (amf3 : Bool) :
    Needs ((decodedCommandIn behind body amf3).all fun obj => !lacking obj)
      (ctx.handleAmfCommandIn behind body amf3) := by
  have hdecode := (decodeCommandIn_leaves behind body amf3).notNull
  unfold CommandContext.handleAmfCommandIn decodedCommandIn
  cases hr : CommandContext.decodeCommandIn behind body amf3 with
  | error e =>
      rw [hr] at hdecode
      rw [error_bind]
      exact Needs.of_notNull hdecode.error
  | ok r =>
      rw [ok_bind]
      dsimp only
      by_cases hret : r.ret < 0
      · unfold CommandContext.dispatchCommand
        rw [if_pos hret, if_pos hret]
        exact Needs.of_notNull (NotNull.ok _)
      · rw [if_neg hret, Option.all_some]
        exact dispatchCommand_needs ctx hret

/-- The command layer is robust exactly against the commands that lack nothing, whatever lies behind them. -/
theorem handleAmfCommand_safe_iff (ctx : CommandContext) (body : List UInt8) (amf3 : Bool) :
    Robust ctx body amf3 ↔ ∀ behind obj, decodedCommandIn behind body amf3 = some obj → lacking obj = false := by
  constructor
  · intro h behind obj hobj
    have hneeds := handleAmfCommandIn_needs behind ctx body amf3
    rw [hobj] at hneeds
    cases hlack : lacking obj with
    | false => rfl
    | true =>
        rw [Option.all_some, hlack] at hneeds
        exact absurd (hneeds.mpr rfl) (h.noNull behind)
  · intro h
    refine ⟨fun behind hnull => ?_, fun behind obj hobj hlack => ?_⟩
    · have hneeds := handleAmfCommandIn_needs behind ctx body amf3
      cases hobj : decodedCommandIn behind body amf3 with
      | none =>
          rw [hobj] at hneeds
          exact absurd (hneeds.mp hnull) nofun
      | some obj =>
          rw [hobj, Option.all_some, h behind obj hobj] at hneeds
          exact absurd (hneeds.mp hnull) nofun
    · rw [h behind obj hobj] at hlack
      exact absurd hlack nofun

end Dispatch

/-- A command that is its name and nothing else. -/
def bareCreateStream : List UInt8 := AMFAny.encodeString (text "createStream")

theorem bareCreateStream_null : ¬ ∀ (host : Host) (ctx : CommandContext) (body : List UInt8)
    (amf3 : Bool), @Robust host ctx body amf3 := by
  intro h
  let host : Host := ⟨fun _ => 0⟩
  exact (h host {} bareCreateStream false).noNull [] rfl

-- the count of a strict array that begins in the message and ends behind it
example : @decodedCommand ⟨fun _ => 0⟩ (bareCreateStream ++ [10, 0, 0]) false = none ∧
    (@decodedCommandIn ⟨fun _ => 0⟩ [0, 0] (bareCreateStream ++ [10, 0, 0]) false).any lacking = true :=
  ⟨rfl, rfl⟩

end TmmsServer
