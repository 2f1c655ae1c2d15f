import TmmsServer.Rtmp.CommandFront
import TmmsServer.Rtmp.CommandReplies

/-!
# Transactions of a server

The transaction ids a server receives against those its answers carry.
-/
namespace TmmsServer
open Lib.Words

/-- The transaction id, as the bits of a double, of a `_result` or `_error` message. -/
def Packet.answers (packet : Packet) : Option UInt64 :=
  match packet.ext with
  | none => none
  | some header =>
      if header.msgType = kRtmpMsgTypeAMFMessage then
        [text "_result", text "_error"].findSome? fun name =>
          let front := AMFAny.encodeString name ++ [AMFDataType.number.code]
          if front.isPrefixOf packet.data then
            some (UInt64.ofNat (beValue ((packet.data.drop front.length).take 8)))
          else none
      else none

/-- A command with its transaction id, with any bytes behind it; AMF3 has one byte in front. -/
structure Request where
  command : Command
  id : UInt64
  rest : List UInt8
  marker : Option UInt8 := none

namespace Request

/-- The name and the transaction id. -/
def arguments (r : Request) : List AMFArgument := [.string r.command.name, .number (whole r.id)]

def body (r : Request) : List UInt8 := r.marker.toList ++ (r.arguments.flatMap AMFArgument.encode ++ r.rest)

/-- A connect, createStream or publish command with an admitted id, which is decoded and lacks nothing. -/
structure Valid [Host] (r : Request) : Prop where
  command : r.command = .connect ∧ r.id = 1 ∨ (r.command = .createStream ∨ r.command = .publish) ∧ r.id.toNat < 2 ^ 53
  decodes : ∃ obj, decodedCommand r.body r.marker.isSome = some obj ∧ lacking obj = false

end Request

inductive ServerEvent where
  | request (r : Request)
  | onWrite (results : List WriteResult)

def ServerEvent.requests : ServerEvent → List Request
  | .request r => [r]
  | .onWrite _ => []

/-- What a call pushes: while a batch is under way it is what the queue grows by. -/
def pushedBy (f : CommandContext → Checked CommandContext) (ctx : CommandContext) : List Packet :=
  match f { ctx with out := { ctx := { sending := true } } } with
  | .ok ctx => ctx.out.ctx.outWaitingQueue
  | .error _ => []

theorem Sends.pushedBy {f : CommandContext → Checked CommandContext} {ctx ctx' : CommandContext}
    {packets : List Packet} (h : Sends f ctx packets ctx') : pushedBy f ctx = packets := by
  unfold TmmsServer.pushedBy
  rw [h, pushAll_busy rfl]
  rfl

/-- A server, with the packets pushed so far. -/
structure ServerRun where
  ctx : CommandContext
  pushed : List Packet := []

namespace ServerRun
variable [Host]

def step (s : ServerRun) : ServerEvent → Checked ServerRun
  | .request r => do
      let ctx ← s.ctx.handleAmfCommand r.body r.marker.isSome
      return { ctx, pushed := s.pushed ++ pushedBy (·.handleAmfCommand r.body r.marker.isSome) s.ctx }
  | .onWrite results => do
      let out ← s.ctx.out.onWrite results
      return { s with ctx := { s.ctx with out } }

def run (s : ServerRun) : List ServerEvent → Checked ServerRun
  | [] => .ok s
  | e :: events => do
      let s ← s.step e
      run s events

end ServerRun

/-- The ids a server answers with: publish has none. -/
def Request.answered (r : Request) : List UInt64 :=
  match r.command with
  | .publish => []
  | _ => [whole r.id]

section Answers

theorem answers_createStream (id : UInt64) : (createStreamMessage id).answers = some id := by
  have hbytes : (createStreamMessage id).data =
      (AMFAny.encodeString (text "_result") ++ [AMFDataType.number.code]) ++ (beBytes 8 id.toNat ++
        (AMFDataType.null.code :: AMFAny.encodeNumber (whole kRtmpMsID1.toUInt64))) := by
    simp only [createStreamMessage, message, createStreamResult, List.flatMap_cons,
      List.flatMap_nil]
    rfl
  have hfront : (AMFAny.encodeString (text "_result") ++ [AMFDataType.number.code]).isPrefixOf
      (createStreamMessage id).data = true := by
    rw [List.isPrefixOf_iff_prefix, hbytes]
    exact List.prefix_append _ _
  have hid : beValue (((createStreamMessage id).data.drop
      (AMFAny.encodeString (text "_result") ++ [AMFDataType.number.code]).length).take 8) = id.toNat := by
    rw [hbytes, List.drop_left, List.take_left' (beBytes_length 8 id.toNat), beValue_beBytes]
    exact Nat.mod_eq_of_lt id.toNat_lt
  have hheader : (createStreamMessage id).ext = some { commandHeader 0 with
      msgLen := UInt32.ofNat (createStreamMessage id).data.length } := rfl
  have htype : (commandHeader 0).msgType = kRtmpMsgTypeAMFMessage := rfl
  unfold Packet.answers
  rw [hheader]
  dsimp only
  rw [if_pos htype, List.findSome?_cons]
  rw [if_pos hfront, hid, UInt64.ofNat_toNat]

theorem answers_connect (ackSize : Int32) (amf3 : Bool) :
    (connectReplies ackSize amf3).filterMap Packet.answers = [whole 1] := by
  have hresult : (connectResultMessage amf3).answers = some (whole 1) := by
    cases amf3 with
    | false => decide +kernel
    | true => decide +kernel
  have hack : (ackWindowsSizeMessage ackSize).answers = none := rfl
  have hbandwidth : (setPeerBandwidthMessage ackSize).answers = none := rfl
  have hchunk : setChunkSizeMessage.answers = none := rfl
  simp only [connectReplies, List.filterMap_cons, List.filterMap_nil, hack, hbandwidth, hchunk,
    hresult]

theorem answers_publish : publishStatus.answers = none := by decide +kernel

theorem answered_cases (r : Request) :
    r.command = .publish ∧ r.answered = [] ∨ r.command ≠ .publish ∧ r.answered = [whole r.id] := by
  unfold Request.answered
  cases r.command with
  | publish => exact .inl ⟨rfl, rfl⟩
  | _ => exact .inr ⟨nofun, rfl⟩

theorem answered_length_le (requests : List Request) :
    (requests.flatMap Request.answered).length ≤ requests.length := by
  induction requests with
  | nil => exact Nat.le_refl 0
  | cons r requests ih =>
      rw [List.flatMap_cons, List.length_append, List.length_cons]
      rcases answered_cases r with ⟨-, h⟩ | ⟨-, h⟩
      · rw [h, List.length_nil]
        omega
      · rw [h, List.length_singleton]
        omega

theorem answered_iff (requests : List Request) :
    requests.flatMap Request.answered = requests.map (fun r => whole r.id) ↔ ∀ r ∈ requests, r.command ≠ .publish := by
  induction requests with
  | nil => exact ⟨fun _ _ hr => absurd hr List.not_mem_nil, fun _ => rfl⟩
  | cons r requests ih =>
      rw [List.flatMap_cons, List.map_cons, List.forall_mem_cons]
      rcases answered_cases r with ⟨hpublish, h⟩ | ⟨hother, h⟩
      · refine ⟨fun hsame => ?_, fun hnone => absurd hpublish hnone.1⟩
        have hlen := congrArg List.length hsame
        have hle := answered_length_le requests
        rw [h, List.nil_append, List.length_cons, List.length_map] at hlen
        omega
      · rw [h, List.singleton_append, List.cons.injEq, and_iff_right rfl, ih, and_iff_right hother]

end Answers

theorem arguments_fit {r : Request} (hid : r.id.toNat < 2 ^ 53) :
    ∀ a ∈ r.arguments, a.Fits ∧ 3 ≤ a.encode.length := by
  intro a ha
  simp only [Request.arguments, List.mem_cons, List.not_mem_nil, or_false] at ha
  rcases ha with rfl | rfl
  · have hname : r.command.name.length < 2 ^ 16 := by cases r.command <;> decide
    refine ⟨hname, ?_⟩
    rw [AMFArgument.encode, AMFArgument.body, List.length_cons, List.length_append,
      BytesWriter.writeUint16T, beBytes_length]
    omega
  · have hfront : (whole r.id).toNat / 2 ^ 48 = 0 ∨ 2 ^ 13 ≤ (whole r.id).toNat / 2 ^ 48 :=
      Lib.Double.ofUint64_front hid
    refine ⟨?_, ?_⟩
    · change field 3 (AMFAny.encodeNumber (whole r.id)) ≠ 9
      rw [field_encodeNumber]
      omega
    · rw [AMFArgument.encode, AMFArgument.body, List.length_cons, beBytes_length]
      decide

section Requests
variable [Host] {r : Request}

theorem Request.Valid.id_lt (hr : r.Valid) : r.id.toNat < 2 ^ 53 := by
  rcases hr.command with ⟨-, hid⟩ | ⟨-, hid⟩
  · rw [hid]
    decide
  · exact hid

theorem arguments_properties (hid : r.id.toNat < 2 ^ 53) :
    r.arguments.flatMap AMFArgument.properties =
    [.string [] r.command.name, .number [] (whole r.id)] := by
  have hcast : Double.toUint64 (whole r.id) = r.id := Double.toUint64_ofUint64 hid
  simp only [Request.arguments, List.flatMap_cons, List.flatMap_nil, AMFArgument.properties, hcast]
  rfl

/-- What is pushed for a command. -/
theorem request_sends (ctx : CommandContext) (hr : r.Valid) :
    ∃ packets ctx', Sends (·.handleAmfCommand r.body r.marker.isSome) ctx packets ctx' ∧
      (∀ p ∈ packets, ∃ header, p.Light header) ∧ packets.filterMap Packet.answers = r.answered := by
  obtain ⟨obj, hobj, hlack⟩ := hr.decodes
  have hfront := decodedCommand_front (fun a ha => (arguments_fit hr.id_lt a ha).1)
    (fun a ha => (arguments_fit hr.id_lt a ha).2) hobj
  rw [arguments_properties hr.id_lt] at hfront
  obtain ⟨more, rfl⟩ := hfront
  have hfind : Command.find (AMFAny.string [] r.command.name).str = some r.command :=
    r.command.find_name
  have hcall : ∀ ctx : CommandContext, ctx.handleAmfCommand r.body r.marker.isSome =
      r.command.handle ctx _ :=
    fun ctx => handleAmfCommand_decoded ctx hobj rfl hfind
  have hhas : r.command.has ([.string [] r.command.name, .number [] (whole r.id)] ++ more) = true := by
    unfold lacking at hlack
    change (Command.find (AMFAny.string [] r.command.name).str).any _ = false at hlack
    rw [hfind, Option.any_some] at hlack
    simpa using hlack
  generalize hall : [AMFAny.string [] r.command.name, .number [] (whole r.id)] ++ more = obj at hcall hhas
  have hid : AMFObject.property obj 1 = some (.number [] (whole r.id)) := by
    rw [← hall]
    rfl
  clear hall hobj hlack hfind
  rcases hr.command with ⟨hconnect, hone⟩ | ⟨hcreate | hpublish, -⟩
  · rw [hconnect] at hcall hhas
    obtain ⟨ctx₁, amf3, hsends⟩ := ctx.handleConnect_replies hhas
    refine ⟨_, ctx₁, fun out => (hcall _).trans (hsends out), connectReplies_light _ _, ?_⟩
    rw [answers_connect, Request.answered, hconnect, hone]
  · rw [hcreate] at hcall
    have hsends := ctx.handleCreateStream_sends hid
    refine ⟨_, ctx, fun out => (hcall _).trans (hsends out), ?_, ?_⟩
    · intro p hp
      rw [List.mem_singleton.mp hp]
      exact createStreamMessage_light _
    · rw [List.filterMap_cons, answers_createStream, Request.answered, hcreate]
      rfl
  · rw [hpublish] at hcall hhas
    obtain ⟨ctx', hsends⟩ := ctx.handlePublish_replies hhas
    refine ⟨_, ctx', fun out => (hcall _).trans (hsends out), ?_, ?_⟩
    · intro p hp
      rw [List.mem_singleton.mp hp]
      exact publishStatus_light
    · rw [List.filterMap_cons, answers_publish, Request.answered, hpublish]
      rfl

/-- A run is accounted for, and its answers are those of its requests. -/
theorem run_answers {h₀ : OutHistory} {pushed₀ : List Packet} {s : ServerRun}
    (hout : Accounted h₀ (pushed₀ ++ s.pushed) s.ctx.out) (events : List ServerEvent)
    (hvalid : ∀ r ∈ events.flatMap ServerEvent.requests, r.Valid)
    (hsoft : ∀ results, ServerEvent.onWrite results ∈ events → .failed ∉ results)
    (hlight : ∀ p ∈ pushed₀ ++ s.pushed, ∃ header, p.Light header) :
    ∃ s', s.run events = .ok s' ∧ Accounted h₀ (pushed₀ ++ s'.pushed) s'.ctx.out ∧
      s'.pushed.filterMap Packet.answers =
        s.pushed.filterMap Packet.answers ++ (events.flatMap ServerEvent.requests).flatMap Request.answered := by
  induction events generalizing s with
  | nil => exact ⟨s, rfl, hout, (List.append_nil _).symm⟩
  | cons e events ih =>
      have hvalid' : ∀ r ∈ events.flatMap ServerEvent.requests, r.Valid := fun r hr =>
        hvalid r (List.mem_append_right _ hr)
      have hsoft' : ∀ results, ServerEvent.onWrite results ∈ events → .failed ∉ results :=
        fun results hmem =>
        hsoft results (List.mem_cons_of_mem _ hmem)
      cases e with
      | request r =>
          obtain ⟨packets, ctx', hsends, hreply, hanswers⟩ :=
            request_sends s.ctx (hvalid r List.mem_cons_self)
          obtain ⟨out, hcall, hout'⟩ := hsends.accounted hreply hout
          have hstep : s.step (.request r) = .ok ⟨{ ctx' with out }, s.pushed ++ packets⟩ := by
            rw [ServerRun.step, hcall, ok_bind, hsends.pushedBy]
            rfl
          rw [List.append_assoc] at hout'
          have hall : ∀ p ∈ pushed₀ ++ (s.pushed ++ packets), ∃ header, p.Light header := by
            intro p hp
            rw [← List.append_assoc] at hp
            rcases List.mem_append.mp hp with hp | hp
            · exact hlight p hp
            · exact hreply p hp
          obtain ⟨s', hrun, hfinal, hsame⟩ :=
            ih (s := ⟨{ ctx' with out }, s.pushed ++ packets⟩) hout' hvalid' hsoft' hall
          refine ⟨s', ?_, hfinal, ?_⟩
          · rw [ServerRun.run, hstep, ok_bind, hrun]
          · rw [hsame, List.filterMap_append, hanswers, List.append_assoc]
            rfl
      | onWrite results =>
          obtain ⟨out, hwrite, hout'⟩ :=
            onWrite_light hout hlight (hsoft results List.mem_cons_self)
          have hstep : s.step (.onWrite results) = .ok { s with ctx := { s.ctx with out } } := by
            rw [ServerRun.step, hwrite, ok_bind]
            rfl
          obtain ⟨s', hrun, hrest⟩ := ih (s := { s with ctx := { s.ctx with out } }) hout' hvalid' hsoft' hlight
          refine ⟨s', ?_, hrest⟩
          rw [ServerRun.run, hstep, ok_bind, hrun]

/-- Every transaction of a run is answered, in order, if and only if there is no publish command in it. -/
theorem transactions_answered_iff {h₀ : OutHistory} {pushed₀ : List Packet} (ctx : CommandContext)
    (hout : Accounted h₀ pushed₀ ctx.out) (hlight : ∀ p ∈ pushed₀, ∃ header, p.Light header)
    (events : List ServerEvent) (hvalid : ∀ r ∈ events.flatMap ServerEvent.requests, r.Valid)
    (hsoft : ∀ results, ServerEvent.onWrite results ∈ events → .failed ∉ results) :
    ∃ s, ServerRun.run { ctx } events = .ok s ∧ Accounted h₀ (pushed₀ ++ s.pushed) s.ctx.out ∧
      (s.pushed.filterMap Packet.answers = (events.flatMap ServerEvent.requests).map (fun r => whole r.id) ↔
        ∀ r ∈ events.flatMap ServerEvent.requests, r.command ≠ .publish) := by
  have hstart : Accounted h₀ (pushed₀ ++ []) ctx.out := by rwa [List.append_nil]
  obtain ⟨s, hrun, hfinal, hanswers⟩ := run_answers (s := { ctx }) hstart events hvalid hsoft
    (by rwa [List.append_nil])
  refine ⟨s, hrun, hfinal, ?_⟩
  rw [hanswers]
  exact answered_iff _

end Requests

/-- The commands of a client that publishes, with the ids it gives them. -/
def connectRequest : Request where
  command := .connect
  id := 1
  rest := amfObject ++ (AMFAny.encodeNamedString (text "app") (text "live") ++
    (AMFAny.encodeNamedString (text "tcUrl") (text "rtmp://a/live/b") ++ amfObjectEnd))

def createStreamRequest : Request where
  command := .createStream
  id := 4
  rest := amfNull

def publishRequest : Request where
  command := .publish
  id := 5
  rest := amfNull ++ (AMFAny.encodeString (text "b") ++ AMFAny.encodeString (text "live"))

theorem publishing_valid :
    ∀ r ∈ [connectRequest, createStreamRequest, publishRequest], @Request.Valid ⟨fun _ => 0⟩ r := by
  have hdecodes : ∀ r ∈ [connectRequest, createStreamRequest, publishRequest],
      (@decodedCommand ⟨fun _ => 0⟩ r.body r.marker.isSome).any (fun obj => !lacking obj) = true := by
    decide +kernel
  intro r hr
  obtain ⟨obj, hobj, hlack⟩ := (Option.any_eq_true _ _).mp (hdecodes r hr)
  refine @Request.Valid.mk ⟨fun _ => 0⟩ r ?_ ⟨obj, hobj, by simpa using hlack⟩
  simp only [List.mem_cons, List.not_mem_nil, or_false] at hr
  rcases hr with rfl | rfl | rfl
  · exact .inl ⟨rfl, rfl⟩
  · exact .inr ⟨.inl rfl, by decide⟩
  · exact .inr ⟨.inr rfl, by decide⟩

theorem transactions_answered_iff_connect :
    ∃ s, @ServerRun.run ⟨fun _ => 0⟩ { ctx := {} } [.request connectRequest, .onWrite [.accepted 40, .again],
        .request createStreamRequest] = .ok s ∧
      Accounted (RtmpOut.stream {}) ([] ++ s.pushed) s.ctx.out ∧
      (s.pushed.filterMap Packet.answers = [whole 1, whole 4] ↔
        ∀ r ∈ [connectRequest, createStreamRequest], r.command ≠ .publish) := by
  have hidle : ({} : RtmpOut).Idle := ⟨rfl, rfl, rfl, rfl, rfl⟩
  refine @transactions_answered_iff ⟨fun _ => 0⟩ _ [] {} (accounted_idle hidle) (fun p hp => absurd hp List.not_mem_nil)
    [.request connectRequest, .onWrite [.accepted 40, .again], .request createStreamRequest]
    (fun r hr => ?_)
    (fun results hmem => ?_)
  · have hmem : r ∈ [connectRequest, createStreamRequest] := hr
    refine publishing_valid r ?_
    exact List.mem_of_mem_take (i := 2) hmem
  · simp only [List.mem_cons, List.not_mem_nil, or_false, reduceCtorEq, false_or,
      ServerEvent.onWrite.injEq] at hmem
    rw [hmem]
    decide

/-- The client that publishes hears of 1 and 4, and not of 5. -/
theorem publish_unanswered :
    ¬ ∀ (_ : Host) (events : List ServerEvent), (∀ r ∈ events.flatMap ServerEvent.requests, r.Valid) →
      ∃ s, ServerRun.run { ctx := {} } events = .ok s ∧
        s.pushed.filterMap Packet.answers = (events.flatMap ServerEvent.requests).map (fun r => whole r.id) := by
  intro h
  have hidle : ({} : RtmpOut).Idle := ⟨rfl, rfl, rfl, rfl, rfl⟩
  let host : Host := ⟨fun _ => 0⟩
  obtain ⟨s, hrun, hsame⟩ := h host [.request connectRequest, .request createStreamRequest, .request publishRequest]
    publishing_valid
  obtain ⟨s', hrun', -, hanswers⟩ := @run_answers _ _ [] { ctx := {} } (accounted_idle hidle)
    [.request connectRequest, .request createStreamRequest, .request publishRequest] publishing_valid
    (fun results hmem => absurd hmem (by simp)) (fun p hp => absurd hp List.not_mem_nil)
  obtain rfl := Except.ok.inj (hrun'.symm.trans hrun)
  rw [hanswers] at hsame
  exact absurd (congrArg List.length hsame) (by decide)

end TmmsServer
