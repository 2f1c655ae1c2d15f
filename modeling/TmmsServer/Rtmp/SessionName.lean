import TmmsServer.Rtmp.CommandFront
import TmmsServer.Rtmp.CommandReplies

/-!
# Session names

The name a server passes to `OnPublish` against the one it passes to `OnPlay`,
for clients that publish and play the streams of URLs.
-/
namespace TmmsServer
open StringUtils

/-- A part of a URL: not empty and without `/`, `:` and `?`. -/
structure Segment where
  bytes : List UInt8
  nonempty : bytes ≠ []
  noSlash : 47 ∉ bytes
  noColon : 58 ∉ bytes
  noQuery : 63 ∉ bytes

/-- `rtmp://domain[:port]/app/name`. -/
structure StreamUrl where
  domain : Segment
  port : Option Segment
  app : Segment
  name : Segment

namespace StreamUrl

def authority (u : StreamUrl) : List UInt8 :=
  match u.port with
  | none => u.domain.bytes
  | some port => u.domain.bytes ++ 58 :: port.bytes

/-- The URL of the application, and the one of the stream. -/
def appUrl (u : StreamUrl) : List UInt8 :=
  text "rtmp:" ++ 47 :: ([] ++ 47 :: (u.authority ++ 47 :: u.app.bytes))

def url (u : StreamUrl) : List UInt8 :=
  text "rtmp:" ++ 47 :: ([] ++ 47 :: (u.authority ++ 47 :: (u.app.bytes ++ 47 :: u.name.bytes)))

theorem authority_noSlash (u : StreamUrl) : 47 ∉ u.authority := by
  unfold authority
  split
  next => exact u.domain.noSlash
  next port _ =>
    rw [List.mem_append, List.mem_cons, not_or, not_or]
    exact ⟨u.domain.noSlash, by decide, port.noSlash⟩

theorem authority_head (u : StreamUrl) : ∃ c s, u.authority = c :: s ∧ c ≠ 58 := by
  obtain ⟨c, s, hdomain⟩ := List.exists_cons_of_ne_nil u.domain.nonempty
  have hc : c ≠ 58 := by
    rintro rfl
    exact u.domain.noColon (hdomain ▸ List.mem_cons_self)
  unfold authority
  split
  next => exact ⟨c, s, hdomain, hc⟩
  next port _ =>
    rw [hdomain]
    exact ⟨c, s ++ 58 :: port.bytes, rfl, hc⟩

theorem splitString_url (u : StreamUrl) : splitString u.url (text "/") =
    [text "rtmp:", [], u.authority, u.app.bytes, u.name.bytes] := by
  have hlen : u.url.length + 1 = u.url.length - 4 + 1 + 1 + 1 + 1 + 1 := by
    unfold url
    simp only [List.length_append, List.length_cons]
    omega
  have hsplit : splitString u.url (text "/") = splitLoop [47] (u.url.length + 1) u.url := rfl
  rw [hsplit, hlen]
  unfold url
  rw [splitLoop_segment _ (by decide), splitLoop_segment _ (by decide),
    splitLoop_segment _ u.authority_noSlash, splitLoop_segment _ u.app.noSlash,
    splitLoop_last _ u.name.noSlash u.name.nonempty]

theorem splitString_appUrl (u : StreamUrl) : splitString u.appUrl (text "/") =
    [text "rtmp:", [], u.authority, u.app.bytes] := by
  have hlen : u.appUrl.length + 1 = u.appUrl.length - 3 + 1 + 1 + 1 + 1 := by
    unfold appUrl
    simp only [List.length_append, List.length_cons]
    omega
  have hsplit : splitString u.appUrl (text "/") = splitLoop [47] (u.appUrl.length + 1) u.appUrl := rfl
  rw [hsplit, hlen]
  unfold appUrl
  rw [splitLoop_segment _ (by decide), splitLoop_segment _ (by decide),
    splitLoop_segment _ u.authority_noSlash, splitLoop_last _ u.app.noSlash u.app.nonempty]

/-- The name `ParseNameAndTcUrl` gives the session: nothing is left of the domain. -/
def session (u : StreamUrl) : List UInt8 := 47 :: u.app.bytes ++ 47 :: u.name.bytes

theorem session_eq_iff (u v : StreamUrl) :
    v.session = u.session ↔ v.app.bytes = u.app.bytes ∧ v.name.bytes = u.name.bytes := by
  constructor
  · intro h
    have htail : v.app.bytes ++ 47 :: v.name.bytes = u.app.bytes ++ 47 :: u.name.bytes :=
      (List.cons.inj h).2
    have hlen : some v.app.bytes.length = some u.app.bytes.length := by
      rw [← find_segment v.app.noSlash, htail, find_segment u.app.noSlash]
    obtain ⟨happ, hname⟩ := List.append_inj htail (Option.some.inj hlen)
    exact ⟨happ, (List.cons.inj hname).2⟩
  · rintro ⟨happ, hname⟩
    rw [session, session, happ, hname]

/-- The URL of the stream, or the URL of its application and its name. -/
def Named (u : StreamUrl) (tcUrl name : List UInt8) : Prop :=
  tcUrl = u.url ∨ tcUrl = u.appUrl ∧ name = u.name.bytes

theorem parseNameAndTcUrl_session (u : StreamUrl) {ctx : CommandContext}
    (happ : ctx.app = u.app.bytes)
    (hnamed : u.Named ctx.tcUrl ctx.name) : ctx.parseNameAndTcUrl.sessionName = u.session := by
  have hdomain : u.authority.findIdx? (· ≠ 58) = some 0 := by
    obtain ⟨c, s, hauthority, hc⟩ := u.authority_head
    rw [hauthority, List.findIdx?_cons, if_pos (decide_eq_true hc)]
  rcases hnamed with hfull | ⟨hshort, hname⟩
  · unfold CommandContext.parseNameAndTcUrl
    rw [hfull, splitString_url]
    dsimp only
    rw [hdomain]
    rfl
  · have hempty : ([] : List UInt8).findIdx? (· ≠ 58) = none := rfl
    unfold CommandContext.parseNameAndTcUrl
    rw [hshort, splitString_appUrl, happ, behind_none u.app.noSlash, hname]
    rfl

end StreamUrl

/-- The body of a message with a command. -/
structure CommandBody where
  body : List UInt8
  amf3 : Bool := false

/-- The session name of the last call of the handler. -/
def CommandContext.lastSession (ctx : CommandContext) : Option (List UInt8) :=
  match ctx.calls.getLast? with
  | some (.onPlay sessionName _) => some sessionName
  | some (.onPublish sessionName _) => some sessionName
  | _ => none

section Visits
variable [Host]

/-- The message is decoded to a command of this name. -/
def CommandBody.Says (m : CommandBody) (command : Command) (obj : List AMFAny) : Prop :=
  decodedCommand m.body m.amf3 = some obj ∧
    ∃ p, AMFObject.property obj 0 = some p ∧ Command.find p.str = some command

/-- The connect, createStream and last command of a client for the stream of a URL. The stream is named by
the `tcUrl` alone, as a client of this library does, or by `tcUrl` and the name in the last command. -/
structure Dialogue (u : StreamUrl) (last : Command) where
  connect : CommandBody
  createStream : CommandBody
  stream : CommandBody
  connectObj : List AMFAny
  createStreamObj : List AMFAny
  streamObj : List AMFAny
  connects : connect.Says .connect connectObj
  creates : createStream.Says .createStream createStreamObj
  streams : stream.Says last streamObj
  p : AMFAny
  commandObject : List AMFAny
  app : AMFAny
  tcUrl : AMFAny
  name : List UInt8
  third : AMFObject.property connectObj 2 = some p
  object : p.obj = some commandObject
  appNamed : AMFObject.propertyNamed (text "app") commandObject = some app
  tcUrlNamed : AMFObject.propertyNamed (text "tcUrl") commandObject = some tcUrl
  nameRead : CommandContext.streamName streamObj = .ok name
  sameApp : app.str = u.app.bytes
  named : u.Named tcUrl.str name

def Dialogue.messages {u : StreamUrl} {last : Command} (d : Dialogue u last) : List CommandBody :=
  [d.connect, d.createStream, d.stream]

/-- A server handles the messages one after the other; its output may move on before each. -/
def Handles (ctx : CommandContext) : List CommandBody → CommandContext → Prop
  | [], ctx' => ctx' = ctx
  | m :: messages, ctx' => ∃ out ctx₁, ({ ctx with out } : CommandContext).handleAmfCommand m.body m.amf3 = .ok ctx₁ ∧
      Handles ctx₁ messages ctx'

/-- A fresh server calls the session so for a client with the stream of `u`. -/
def SessionOf (u : StreamUrl) (last : Command) (sessionName : List UInt8) : Prop :=
  ∃ (d : Dialogue u last) (ctx : CommandContext), Handles {} d.messages ctx ∧
    ctx.lastSession = some sessionName

variable {u : StreamUrl} {last : Command}

theorem handleAmfCommand_said {m : CommandBody} {command : Command} {obj : List AMFAny}
    (h : m.Says command obj)
    (ctx : CommandContext) : ctx.handleAmfCommand m.body m.amf3 = command.handle ctx obj := by
  obtain ⟨hobj, p, hp, hfind⟩ := h
  exact handleAmfCommand_decoded ctx hobj hp hfind

/-- The last command finds what the connect command left behind. -/
theorem handles_connected {d : Dialogue u last} {ctx : CommandContext}
    (h : Handles {} d.messages ctx) :
    ∃ out, last.handle { app := u.app.bytes, tcUrl := d.tcUrl.str, out } d.streamObj = .ok ctx := by
  obtain ⟨out₁, ctx₁, h₁, out₂, ctx₂, h₂, out₃, ctx₃, h₃, hlast⟩ := h
  rw [handleAmfCommand_said d.connects] at h₁
  rw [handleAmfCommand_said d.creates] at h₂
  rw [handleAmfCommand_said d.streams, ← hlast] at h₃
  have htake : ∃ amf3, ({} : CommandContext).takeCommandObject d.p =
      .ok ({ app := u.app.bytes, tcUrl := d.tcUrl.str }, amf3) := by
    unfold CommandContext.takeCommandObject
    rw [d.object]
    dsimp only
    rw [d.appNamed, d.tcUrlNamed, ← d.sameApp]
    exact ⟨_, rfl⟩
  obtain ⟨amf3, htake⟩ := htake
  have hctx₁ := (CommandContext.handleConnect_sends d.third htake).result h₁
  obtain ⟨p, hp, -⟩ := of_bind_ok (show deref (AMFObject.property d.createStreamObj 1) >>= _ = _ from h₂)
  have hctx₂ := (CommandContext.handleCreateStream_sends ctx₁ (of_deref_ok hp)).result h₂
  refine ⟨out₃, ?_⟩
  rw [hctx₂, hctx₁] at h₃
  exact h₃

/-- The context of a publisher never has a session name. -/
theorem publish_session {s : List UInt8} (h : SessionOf u .publish s) : s = [] := by
  obtain ⟨d, ctx, hhandles, hsession⟩ := h
  obtain ⟨out, hlast⟩ := handles_connected hhandles
  have hctx := (CommandContext.handlePublish_sends { app := u.app.bytes, tcUrl := d.tcUrl.str } d.nameRead).result hlast
  rw [hctx] at hsession
  exact (Option.some.inj hsession).symm

theorem play_session {s : List UInt8} (h : SessionOf u .play s) : s = u.session := by
  obtain ⟨d, ctx, hhandles, hsession⟩ := h
  obtain ⟨out, hlast⟩ := handles_connected hhandles
  have hctx := (CommandContext.handlePlay_sends { app := u.app.bytes, tcUrl := d.tcUrl.str } d.nameRead).result hlast
  have hparse := @StreamUrl.parseNameAndTcUrl_session u
    { app := u.app.bytes, tcUrl := d.tcUrl.str, name := d.name } rfl d.named
  rw [hctx] at hsession
  rw [← hparse]
  exact (Option.some.inj hsession).symm

/-- For no URL a publisher and a player meet: all publishers share the empty name, and players of
two URLs share theirs exactly when application and stream have the same names. -/
theorem sessions_never_meet {s t : List UInt8} (hs : SessionOf u .publish s)
    (ht : SessionOf u .play t) : s ≠ t ∧ (∀ v s', SessionOf v .publish s' → s' = s) ∧
      ∀ v t', SessionOf v .play t' → (t' = t ↔ v.app.bytes = u.app.bytes ∧ v.name.bytes = u.name.bytes) := by
  rw [publish_session hs, play_session ht]
  refine ⟨nofun, fun v s' hs' => publish_session hs', fun v t' ht' => ?_⟩
  rw [play_session ht']
  exact u.session_eq_iff v

end Visits

section Checks
variable [Host]

def CommandBody.conveys (m : CommandBody) (command : Command) (check : List AMFAny → Bool) : Bool :=
  (decodedCommand m.body m.amf3).any fun obj =>
    ((AMFObject.property obj 0).any fun p => Command.find p.str == some command) && check obj

theorem CommandBody.conveys_iff {m : CommandBody} {command : Command} {check : List AMFAny → Bool}
    (h : m.conveys command check = true) : ∃ obj, m.Says command obj ∧ check obj = true := by
  obtain ⟨obj, hobj, hboth⟩ := (Option.any_eq_true _ _).mp h
  obtain ⟨hname, hcheck⟩ := Bool.and_eq_true_iff.mp hboth
  obtain ⟨p, hp, hfind⟩ := (Option.any_eq_true _ _).mp hname
  exact ⟨obj, ⟨hobj, p, hp, eq_of_beq hfind⟩, hcheck⟩

/-- The messages of a client that puts the URL of the stream into its connect command, by evaluation. -/
def speaks (u : StreamUrl) (last : Command) (connect createStream stream : CommandBody) : Bool :=
  (connect.conveys .connect fun obj => (AMFObject.property obj 2).any fun p => p.obj.any fun sub =>
      (AMFObject.propertyNamed (text "app") sub).any (·.str == u.app.bytes) &&
        (AMFObject.propertyNamed (text "tcUrl") sub).any (·.str == u.url)) &&
    (createStream.conveys .createStream fun _ => true) &&
    stream.conveys last fun obj => (CommandContext.streamName obj).toOption.isSome

theorem speaks_dialogue {u : StreamUrl} {last : Command} {connect createStream stream : CommandBody}
    (h : speaks u last connect createStream stream = true) :
    ∃ d : Dialogue u last, d.messages = [connect, createStream, stream] := by
  obtain ⟨hfront, hstream⟩ := Bool.and_eq_true_iff.mp h
  obtain ⟨hconnect, hcreate⟩ := Bool.and_eq_true_iff.mp hfront
  obtain ⟨connectObj, connects, hobject⟩ := CommandBody.conveys_iff hconnect
  obtain ⟨createStreamObj, creates, -⟩ := CommandBody.conveys_iff hcreate
  obtain ⟨streamObj, streams, hname⟩ := CommandBody.conveys_iff hstream
  obtain ⟨p, third, hsub⟩ := (Option.any_eq_true _ _).mp hobject
  obtain ⟨commandObject, object, hboth⟩ := (Option.any_eq_true _ _).mp hsub
  obtain ⟨happ, htcUrl⟩ := Bool.and_eq_true_iff.mp hboth
  obtain ⟨app, appNamed, sameApp⟩ := (Option.any_eq_true _ _).mp happ
  obtain ⟨tcUrl, tcUrlNamed, sameUrl⟩ := (Option.any_eq_true _ _).mp htcUrl
  cases hread : CommandContext.streamName streamObj with
  | error e =>
      rw [hread] at hname
      exact absurd hname nofun
  | ok name =>
      refine ⟨{
        connect, createStream, stream, connectObj, createStreamObj, streamObj, connects, creates, streams, p,
        commandObject, app, tcUrl, name, third, object, appNamed, tcUrlNamed
        nameRead := hread
        sameApp := eq_of_beq sameApp
        named := .inl (eq_of_beq sameUrl) }, rfl⟩

theorem handles_fold {ctx ctx' : CommandContext} (messages : List CommandBody)
    (h : messages.foldlM (fun ctx m => ctx.handleAmfCommand m.body m.amf3) ctx = .ok ctx') :
    Handles ctx messages ctx' := by
  induction messages generalizing ctx with
  | nil => exact (Except.ok.inj h).symm
  | cons m messages ih =>
      rw [List.foldlM_cons] at h
      obtain ⟨ctx₁, hm, h⟩ := of_bind_ok h
      exact ⟨ctx.out, ctx₁, hm, ih h⟩

end Checks

def bytesOf (message : Checked Packet) : CommandBody :=
  { body := (message.toOption.map (·.data)).getD [] }

/-- `rtmp://a/live/b`. -/
def oneStream : StreamUrl where
  domain := ⟨text "a", by decide, by decide, by decide, by decide⟩
  port := none
  app := ⟨text "live", by decide, by decide, by decide, by decide⟩
  name := ⟨text "b", by decide, by decide, by decide, by decide⟩

/-- The messages of a client of this library, as `SendConnect`, `SendCreateStream` and `SendPublish` write them. -/
def oneStreamMessages (stream : List UInt8 → Checked Packet) : List CommandBody :=
  let client := ({} : CommandContext).publish oneStream.url
  [bytesOf (CommandContext.connectMessage client.app client.tcUrl),
    { body := AMFAny.encodeString (text "createStream") ++ (AMFAny.encodeNumber (whole 4) ++ amfNull) },
    bytesOf (stream client.name)]

theorem oneStream_session {last : Command} {stream : List UInt8 → Checked Packet} {s : List UInt8}
    (hspeaks : (match oneStreamMessages stream with
      | [connect, createStream, stream] => @speaks ⟨fun _ => 0⟩ oneStream last connect createStream stream
      | _ => false) = true)
    (hrun : ((oneStreamMessages stream).foldlM
        (fun ctx m => @CommandContext.handleAmfCommand ⟨fun _ => 0⟩ ctx m.body m.amf3) {}).toOption.any
      (·.lastSession == some s) = true) :
    @SessionOf ⟨fun _ => 0⟩ oneStream last s := by
  obtain ⟨d, hd⟩ := @speaks_dialogue ⟨fun _ => 0⟩ _ _ _ _ _ hspeaks
  obtain ⟨ctx, hctx, hsession⟩ := (Option.any_eq_true _ _).mp hrun
  refine ⟨d, ctx, ?_, eq_of_beq hsession⟩
  rw [hd]
  exact @handles_fold ⟨fun _ => 0⟩ _ _ _ (ok_of_toOption hctx)

theorem oneStream_publish : @SessionOf ⟨fun _ => 0⟩ oneStream .publish [] :=
  @oneStream_session _ CommandContext.publishMessage _ (by decide +kernel) (by decide +kernel)

theorem oneStream_play : @SessionOf ⟨fun _ => 0⟩ oneStream .play (text "/live/b") :=
  @oneStream_session _ CommandContext.playMessage _ (by decide +kernel) (by decide +kernel)

theorem sessions_never_meet_one : ([] : List UInt8) ≠ text "/live/b" ∧
    (∀ v s', @SessionOf ⟨fun _ => 0⟩ v .publish s' → s' = []) ∧
    ∀ v t', @SessionOf ⟨fun _ => 0⟩ v .play t' →
      (t' = text "/live/b" ↔ v.app.bytes = oneStream.app.bytes ∧ v.name.bytes = oneStream.name.bytes) :=
  @sessions_never_meet ⟨fun _ => 0⟩ _ _ _ oneStream_publish oneStream_play

/-- The publisher of `rtmp://a/live/b` is in the session without a name, and its player is in `/live/b`. -/
theorem session_not_shared :
    ¬ ∀ (_ : Host) (u : StreamUrl) (s t : List UInt8), SessionOf u .publish s → SessionOf u .play t → s = t := by
  intro h
  exact absurd (h ⟨fun _ => 0⟩ oneStream [] (text "/live/b") oneStream_publish oneStream_play) (by decide)

/-! ## Names with a query -/

/-- A part of a path: not empty and without `/` and `?`. -/
structure PathPart where
  bytes : List UInt8
  nonempty : bytes ≠ []
  noSlash : 47 ∉ bytes
  noQuery : 63 ∉ bytes

/-- `rtmp://[ip/]domain[:port]/app/name[?query]`. -/
structure QueryUrl where
  ip : Option (List UInt8)
  domain : Segment
  port : Option (List UInt8)
  app : PathPart
  name : PathPart
  query : Option (List UInt8)

namespace QueryUrl

/-- What is there, behind its mark. -/
def marked (mark : UInt8) : Option (List UInt8) → List UInt8
  | none => []
  | some s => mark :: s

/-- The name of the stream with its query. -/
def stream (u : QueryUrl) : List UInt8 := u.name.bytes ++ marked 63 u.query

def tcUrl (u : QueryUrl) : List UInt8 :=
  text "rtmp://" ++ (u.ip.map (· ++ [47])).getD [] ++ u.domain.bytes ++ marked 58 u.port ++
    47 :: u.app.bytes ++ 47 :: u.stream

def session (u : QueryUrl) : List UInt8 := u.domain.bytes ++ 47 :: u.app.bytes ++ 47 :: u.name.bytes

/-- The context that `ParseNameAndTcUrl` leaves. -/
def parsed (u : QueryUrl) (ctx : CommandContext) : CommandContext :=
  ({ ctx with tcUrl := u.tcUrl, name := u.stream } : CommandContext).parseNameAndTcUrl

/-- The session has its name from domain, application and stream, and its parameters from the query. -/
def Parses (u : QueryUrl) (ctx : CommandContext) : Prop :=
  (u.parsed ctx).sessionName = u.session ∧ (u.parsed ctx).param = u.query.getD []

end QueryUrl

theorem domain_colons (domain : List UInt8) : ∀ c ∈ (match domain.findIdx? (· ≠ 58) with
    | some p => domain.take p
    | none => domain), c = 58 := by
  intro c hc
  split at hc
  next p hp =>
    obtain ⟨hlt, -, hfront⟩ := List.findIdx?_eq_some_iff_getElem.mp hp
    obtain ⟨i, hi, rfl⟩ := List.mem_take_iff_getElem.mp hc
    have hcolon := hfront i (Nat.lt_of_lt_of_le hi (Nat.min_le_left _ _))
    simpa using hcolon
  next hnone =>
    have hcolon := List.findIdx?_eq_none_iff.mp hnone c hc
    simpa using hcolon

theorem sessionName_head (ctx : CommandContext) :
    ∃ c s, ctx.parseNameAndTcUrl.sessionName = c :: s ∧ (c = 58 ∨ c = 47) := by
  have hhead : ∀ domain app name : List UInt8, (∀ c ∈ domain, c = 58) →
      ∃ c s, domain ++ (47 :: app) ++ (47 :: name) = c :: s ∧ (c = 58 ∨ c = 47) := by
    intro domain app name hcolons
    cases domain with
    | nil => exact ⟨47, _, rfl, .inr rfl⟩
    | cons c domain => exact ⟨c, _, rfl, .inl (hcolons c List.mem_cons_self)⟩
  exact hhead _ _ _ (domain_colons _)

namespace QueryUrl

theorem parsed_param (u : QueryUrl) (ctx : CommandContext) : (u.parsed ctx).param = u.query.getD [] := by
  change (behind 63 u.stream).getD [] = u.query.getD []
  unfold stream
  cases u.query with
  | none =>
      rw [marked, List.append_nil, behind_none u.name.noQuery, Option.getD_none]
  | some query =>
      rw [marked, behind_segment u.name.noQuery]

theorem parsed_sessionName (u : QueryUrl) (ctx : CommandContext) : (u.parsed ctx).sessionName ≠ u.session := by
  obtain ⟨c, s, hname, hc⟩ := sessionName_head { ctx with tcUrl := u.tcUrl, name := u.stream }
  obtain ⟨d, domain, hdomain⟩ := List.exists_cons_of_ne_nil u.domain.nonempty
  have hmem : d ∈ u.domain.bytes := hdomain ▸ List.mem_cons_self
  intro h
  have hsame : c :: s = u.session := hname.symm.trans h
  rw [session, hdomain] at hsame
  obtain rfl := (List.cons.inj hsame).1
  rcases hc with rfl | rfl
  · exact u.domain.noColon hmem
  · exact u.domain.noSlash hmem

/-- For no URL the session has the name it should have; its parameters are right. -/
theorem parses_never (u : QueryUrl) (ctx : CommandContext) :
    ¬ u.Parses ctx ∧ (u.parsed ctx).param = u.query.getD [] :=
  ⟨fun h => u.parsed_sessionName ctx h.1, u.parsed_param ctx⟩

/-- `rtmp://a/live/b` is not in the session `a/live/b`. -/
theorem session_misnamed : ¬ ∀ (u : QueryUrl) (ctx : CommandContext), u.Parses ctx := by
  intro h
  have hone := h { ip := none
                   domain := oneStream.domain
                   port := none
                   app := ⟨text "live", by decide, by decide, by decide⟩
                   name := ⟨text "b", by decide, by decide, by decide⟩
                   query := none } {}
  exact parsed_sessionName _ _ hone.1

end QueryUrl
end TmmsServer
