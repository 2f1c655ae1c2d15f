import TmmsServer.Net.ClientLifecycle

/-!
# A `TcpClient` that is refused

Where `connect` comes back with `EINPROGRESS` the client waits for an event. If the peer then
refuses, the event carries `EPOLLERR`, which the loop looks at first: it takes the error of
the socket and writes to the log, and no event comes after it.
-/
namespace TmmsServer
open Lib.Gather Lib.Epoll Lib.Runs

namespace TcpClient
variable {α : Type} {c c' : TcpClient α}

/-- Nothing of it starts a connection. -/
structure Settles (c c' : TcpClient α) : Prop where
  socket : c'.socket = .connecting → c.socket = .connecting
  status : c'.status = .init → c.status = .init

theorem Settles.refl (c : TcpClient α) : c.Settles c := ⟨id, id⟩

theorem onClose_settles (c : TcpClient α) : c.Settles c.onClose := by
  have hclose : ∀ d : TcpClient α, d.status = .disconnected → d.socket = c.socket → c.Settles d.connectionOnClose := by
    intro d hstatus hsocket
    have hnot : ∀ e : TcpClient α, e.status = d.status → e.status ≠ .init := by
      intro e he hinit
      rw [he, hstatus] at hinit
      cases hinit
    unfold connectionOnClose close
    split
    · exact ⟨fun h => hsocket.symm.trans h, fun h => absurd h (hnot _ rfl)⟩
    · split
      · exact ⟨nofun, fun h => absurd h (hnot _ rfl)⟩
      · exact ⟨fun h => hsocket.symm.trans h, fun h => absurd h (hnot _ rfl)⟩
  unfold onClose
  split
  · exact hclose _ rfl rfl
  · exact hclose _ rfl rfl

theorem checkError_settles (c : TcpClient α) : c.Settles c.checkError := by
  unfold checkError
  dsimp only
  split
  · have h := onClose_settles { c with soError := false }
    exact ⟨h.socket, h.status⟩
  · exact ⟨id, nofun⟩

theorem readTurn_settles (c : TcpClient α) (ret : ReadReturn) : c.Settles (c.readTurn ret) := by
  have hclose := onClose_settles { c with reading := false }
  cases ret with
  | got => exact ⟨id, id⟩
  | eof => exact ⟨hclose.socket, hclose.status⟩
  | failed => exact ⟨hclose.socket, hclose.status⟩
  | eagain => exact ⟨id, id⟩
  | eintr => exact ⟨id, id⟩

theorem onRead_settles (c : TcpClient α) : c.Settles c.onRead := by
  unfold onRead
  split
  · exact checkError_settles c
  · split
    · exact .refl c
    · exact ⟨id, id⟩
  · exact .refl c
  · exact .refl c

/-- Before it is closed a client is as it was made, or connects with nothing to report, or that is over. -/
structure Awaiting (c : TcpClient α) : Prop where
  init : c.status = .init → c = {}
  status : c.socket = .connecting → c.status = .connecting
  conditions : c.socket = .connecting → c.link.fd.conditions = {}
  reported : c.socket = .connecting → c.reported = none
  edge : c.socket = .connecting → c.link.fd.edgeTriggered = true

theorem awaiting_of_ne (hstatus : c.status ≠ .init) (hsocket : c.socket ≠ .connecting) : c.Awaiting where
  init := fun h => absurd h hstatus
  status := fun h => absurd h hsocket
  conditions := fun h => absurd h hsocket
  reported := fun h => absurd h hsocket
  edge := fun h => absurd h hsocket

theorem Settles.awaiting (h : c.Settles c') (hstatus : c.status ≠ .init) (hsocket : c.socket ≠ .connecting) :
    c'.Awaiting :=
  awaiting_of_ne (fun hinit => hstatus (h.status hinit)) fun hconnecting => hsocket (h.socket hconnecting)

variable [Pointer α]

theorem writeLoop_settles (c : TcpClient α) (rets : List WriteReturn) : c.Settles (c.writeLoop rets) := by
  induction rets generalizing c with
  | nil => exact .refl c
  | cons ret rets ih =>
      unfold writeLoop
      dsimp only
      cases ret with
      | accepted n =>
          dsimp only
          split
          · exact ⟨id, id⟩
          · exact ⟨(ih _).socket, (ih _).status⟩
      | eagain => exact .refl c
      | eintr => exact .refl c
      | failed => exact onClose_settles c

theorem onWrite_settles (c : TcpClient α) (rets : List WriteReturn) : c.Settles (c.onWrite rets) := by
  unfold onWrite
  split
  · exact checkError_settles c
  · split
    · exact .refl c
    · exact writeLoop_settles c rets
  · exact .refl c
  · exact .refl c

theorem handle_settles (c : TcpClient α) (ev : Events) (writes : List WriteReturn) :
    c.Settles (c.handle ev writes) := by
  unfold handle
  split
  · unfold dispatch
    split
    · exact ⟨id, id⟩
    · exact onClose_settles c
    · exact onRead_settles c
    · exact onWrite_settles c writes
    · exact .refl c
  · exact .refl c

omit [Pointer α] in
theorem onClose_status (c : TcpClient α) : c.onClose.status = .disconnected := by
  unfold onClose connectionOnClose close
  dsimp only
  split
  · split
    · rfl
    · split <;> rfl
  · split
    · rfl
    · split <;> rfl

omit [Pointer α] in
theorem onClose_awaiting (hsocket : c.socket ≠ .connecting) : c.onClose.Awaiting :=
  awaiting_of_ne (by rw [onClose_status]; decide) fun h => hsocket ((onClose_settles c).socket h)

omit [Pointer α] in
theorem Awaiting.started (h : c.Awaiting) (hsocket : c.socket ≠ .idle) : c.status ≠ .init := by
  intro hinit
  rw [h.init hinit] at hsocket
  exact hsocket rfl

omit [Pointer α] in
theorem Awaiting.connected (h : c.Awaiting) (hstatus : c.status = .connected) (hsame : c'.status = c.status)
    (hsocket : c'.socket = c.socket) : c'.Awaiting := by
  refine awaiting_of_ne (by rw [hsame, hstatus]; decide) ?_
  intro hconnecting
  cases hstatus.symm.trans (h.status (hsocket.symm.trans hconnecting))

omit [Pointer α] in
theorem connectInLoop_awaiting (socket : Bool) (ret : ConnectReturn) :
    (({} : TcpClient α).connectInLoop socket ret).Awaiting := by
  cases socket with
  | false => exact onClose_awaiting (c := { fd := false }) ClientSocket.noConfusion
  | true =>
      cases ret with
      | ok => exact awaiting_of_ne nofun nofun
      | inProgress => exact ⟨nofun, fun _ => rfl, fun _ => rfl, fun _ => rfl, fun _ => rfl⟩
      | failed =>
          unfold connectInLoop
          dsimp only
          rw [if_pos rfl]
          exact onClose_awaiting ClientSocket.noConfusion

omit [Pointer α] in
/-- A client that connects has nothing to report. -/
theorem Awaiting.epollWait (h : c.Awaiting) (hqueued : c.link.fd.queued = true) :
    ({ c with reported := c.link.fd.report.1, link := { c.link with fd := c.link.fd.report.2 } } :
      TcpClient α).Awaiting := by
  have hstatus : c.status ≠ .init := by
    intro hinit
    rw [h.init hinit] at hqueued
    cases hqueued
  by_cases hsocket : c.socket = .connecting
  · have hnone : c.link.fd.reportable.any = false := by
      unfold Descriptor.reportable
      rw [h.conditions hsocket]
      rfl
    have hreport : c.link.fd.report = (none, { c.link.fd with queued := false }) := by
      unfold Descriptor.report
      rw [hnone]
      rfl
    rw [hreport]
    exact ⟨fun hinit => absurd hinit hstatus, h.status, h.conditions, fun _ => rfl, h.edge⟩
  · exact awaiting_of_ne hstatus hsocket

theorem Awaiting.step {a : ClientAction α} (h : c.Awaiting) (hopen : c.Opened) (hallows : c.Allows a)
    (hstep : c.step a = some c') (hstill : c'.link.conn.closed = false) : c'.Awaiting := by
  cases a with
  | connect socket ret =>
      cases hstep
      rw [h.init (hopen.unregistered hallows.1)]
      exact connectInLoop_awaiting socket ret
  | establish =>
      obtain ⟨hsocket, hstep⟩ := Option.ite_none_right_eq_some.mp hstep
      cases hstep
      exact awaiting_of_ne (by rw [h.status hsocket]; decide) nofun
  | refuse =>
      obtain ⟨hsocket, hstep⟩ := Option.ite_none_right_eq_some.mp hstep
      cases hstep
      exact awaiting_of_ne (by rw [h.status hsocket]; decide) nofun
  | becomes conditions =>
      obtain ⟨hsocket, hstep⟩ := Option.ite_none_right_eq_some.mp hstep
      cases hstep
      exact awaiting_of_ne (h.started (by rw [hsocket]; decide)) (by rw [hsocket]; decide)
  | ceases conditions =>
      obtain ⟨hsocket, hstep⟩ := Option.ite_none_right_eq_some.mp hstep
      cases hstep
      exact awaiting_of_ne (h.started (by rw [hsocket]; decide)) (by rw [hsocket]; decide)
  | epollWait =>
      obtain ⟨⟨hqueued, -⟩, hstep⟩ := Option.ite_none_right_eq_some.mp hstep
      cases hstep
      exact h.epollWait hqueued
  | handle writes =>
      obtain ⟨ev, hev, rfl⟩ := Option.map_eq_some_iff.mp hstep
      have hstatus : c.status ≠ .init := by
        intro hinit
        rw [h.init hinit] at hev
        cases hev
      have hsocket : c.socket ≠ .connecting := by
        intro hconnecting
        rw [h.reported hconnecting] at hev
        cases hev
      exact (handle_settles { c with reported := none } ev writes).awaiting hstatus hsocket
  | stray ev writes =>
      obtain ⟨⟨hstrays, -⟩, -⟩ := Option.ite_none_right_eq_some.mp hstep
      exact absurd hopen.strays (Nat.ne_of_gt hstrays)
  | readFd ret =>
      obtain ⟨⟨hreading, -⟩, hstep⟩ := Option.ite_none_right_eq_some.mp hstep
      cases hstep
      have hstatus := hopen.reading hreading
      refine (readTurn_settles c ret).awaiting (by rw [hstatus]; decide) ?_
      intro hconnecting
      cases hstatus.symm.trans (h.status hconnecting)
  | send buf size ret =>
      cases hstep
      unfold TcpClient.send
      split
      next hstatus =>
        dsimp only
        split
        · exact h.connected hstatus rfl rfl
        · exact h.connected hstatus rfl rfl
      · exact h
  | sendList list =>
      cases hstep
      unfold TcpClient.sendList
      split
      next hstatus => exact h.connected hstatus rfl rfl
      · exact h
  | forceClose =>
      cases hstep
      exact absurd (hstill.symm.trans hopen.onClose.closed) Bool.noConfusion

/-- Where the report of a refused connection is. -/
inductive Reporting (c : TcpClient α) : Prop
  | queued (hnone : c.reported = none) (herror : c.link.fd.conditions.epollerr = true)
  | reported (ev : Events) (hev : c.reported = some ev) (herror : ev.epollerr = true)
      (hquiet : c.link.fd.queued = false)
  | past (hnone : c.reported = none) (hquiet : c.link.fd.queued = false)

/-- A client whose peer has refused. -/
structure Refused (c : TcpClient α) : Prop where
  status : c.status = .connecting
  registered : c.registered = true
  opened : c.link.conn.closed = false
  socket : c.socket = .refused
  reading : c.reading = false
  events : c.events = []
  edge : c.link.fd.edgeTriggered = true
  strays : c.strays = 0
  reporting : c.Reporting

omit [Pointer α] in
theorem Refused.epollWait (h : c.Refused) (hnone : c.reported = none) (hqueued : c.link.fd.queued = true) :
    ({ c with reported := c.link.fd.report.1, link := { c.link with fd := c.link.fd.report.2 } } :
      TcpClient α).Refused := by
  cases h.reporting with
  | queued _ herror =>
      obtain ⟨hcarried, hreport⟩ := Descriptor.report_error h.registered h.edge herror
      rw [hreport]
      exact ⟨h.status, h.registered, h.opened, h.socket, h.reading, h.events, h.edge, h.strays,
    .reported _ rfl hcarried rfl⟩
  | reported ev hev => cases hnone.symm.trans hev
  | past _ hquiet => cases hqueued.symm.trans hquiet

theorem Refused.handle (h : c.Refused) {ev : Events} (hev : c.reported = some ev) (writes : List WriteReturn) :
    (({ c with reported := none } : TcpClient α).handle ev writes).Refused := by
  cases h.reporting with
  | queued hnone => cases hnone.symm.trans hev
  | reported ev' hev' herror hquiet =>
      obtain rfl := Option.some.inj (hev.symm.trans hev')
      have hhandler : handlerOf ev = .onError := if_pos herror
      unfold TcpClient.handle TcpClient.dispatch
      rw [if_pos (by exact h.registered), hhandler]
      exact ⟨h.status, h.registered, h.opened, h.socket, h.reading, h.events, h.edge, h.strays, .past rfl hquiet⟩
  | past hnone => cases hnone.symm.trans hev

/-- A step of the program itself or of the peer, or a call that sends. -/
def Leaves : ClientAction α → Bool
  | .connect _ _ | .forceClose => false
  | _ => true

theorem Refused.step {a : ClientAction α} (h : c.Refused) (ha : Leaves a = true) (hstep : c.step a = some c') :
    c'.Refused := by
  have hsocket : ∀ socket, socket ≠ .refused → c.socket ≠ socket := fun socket hne heq => hne (heq.symm.trans h.socket)
  have hnot : c.status ≠ .connected := by rw [h.status]; decide
  cases a with
  | connect socket ret => cases ha
  | stray ev writes =>
      obtain ⟨⟨hstrays, -⟩, -⟩ := Option.ite_none_right_eq_some.mp hstep
      exact absurd h.strays (Nat.ne_of_gt hstrays)
  | establish =>
      obtain ⟨hconnecting, -⟩ := Option.ite_none_right_eq_some.mp hstep
      exact absurd hconnecting (hsocket _ (by decide))
  | refuse =>
      obtain ⟨hconnecting, -⟩ := Option.ite_none_right_eq_some.mp hstep
      exact absurd hconnecting (hsocket _ (by decide))
  | becomes conditions =>
      obtain ⟨hestablished, -⟩ := Option.ite_none_right_eq_some.mp hstep
      exact absurd hestablished (hsocket _ (by decide))
  | ceases conditions =>
      obtain ⟨hestablished, -⟩ := Option.ite_none_right_eq_some.mp hstep
      exact absurd hestablished (hsocket _ (by decide))
  | epollWait =>
      obtain ⟨⟨hqueued, hnone, -⟩, hstep⟩ := Option.ite_none_right_eq_some.mp hstep
      cases hstep
      exact h.epollWait hnone hqueued
  | handle writes =>
      obtain ⟨ev, hev, rfl⟩ := Option.map_eq_some_iff.mp hstep
      exact h.handle hev writes
  | readFd ret =>
      obtain ⟨⟨hreading, -⟩, -⟩ := Option.ite_none_right_eq_some.mp hstep
      cases hreading.symm.trans h.reading
  | send buf size ret =>
      cases hstep
      unfold TcpClient.send
      rw [if_neg hnot]
      exact h
  | sendList list =>
      cases hstep
      unfold TcpClient.sendList
      rw [if_neg hnot]
      exact h
  | forceClose => cases ha

theorem Awaiting.refuse (h : c.Awaiting) (hopen : c.Opened) (hrefuse : c.step .refuse = some c') : c'.Refused := by
  obtain ⟨hsocket, hrefuse⟩ := Option.ite_none_right_eq_some.mp hrefuse
  cases hrefuse
  have hstatus := h.status hsocket
  have hreg : c.registered = true := hopen.listed.mpr (.inl hstatus)
  have hreading : c.reading = false := by
    refine Bool.eq_false_iff.mpr fun hr => ?_
    cases hstatus.symm.trans (hopen.reading hr)
  have hevents : c.events = [] := by simpa only [hstatus, Shown] using hopen.shown
  exact ⟨hstatus, hreg, hopen.opened, rfl, hreading, hevents, h.edge hsocket, hopen.strays,
    .queued (h.reported hsocket) (Bool.or_true _)⟩

end TcpClient
end TmmsServer
