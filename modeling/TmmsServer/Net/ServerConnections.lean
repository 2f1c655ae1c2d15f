import TmmsServer.Lib.Registry
import TmmsServer.Net.TcpServer

/-!
# The books of a server

After every handler `connections_` and `events_` agree with the connections that
are not closed. Closing one takes its entry away before its descriptor can be
handed out again.
-/
namespace TmmsServer
open Lib.Registry

namespace TcpServer

/-- `connections_` and `events_` have the connections that are not closed, and every entry an open descriptor. -/
structure Books (s : TcpServer) : Prop where
  fresh : ∀ id, s.connection id = none ↔ s.accepted ≤ id
  members : ∀ id, id ∈ s.connections ↔ ∃ c, s.connection id = some c ∧ c.closed = false
  entries : ∀ fd id, s.events fd = some (.connection id) ↔
    ∃ c, s.connection id = some c ∧ c.closed = false ∧ c.fd = fd
  acceptor : ∀ fd, s.events fd = some .acceptor → fd = s.acceptorFd
  opened : ∀ fd, s.events fd ≠ none → fd ∈ s.opened
  once : ∀ id c, s.connection id = some c → c.closes = c.closed.toNat ∧ c.destroys ≤ c.closed.toNat

def Listening (s : TcpServer) : Prop := s.events s.acceptorFd = some .acceptor

/-- The descriptors that `accept` gave in one call of `Acceptor::OnRead`. -/
def acceptedFds : List AcceptReturn → List Int
  | [] => []
  | .accepted fd _ :: accepts => fd :: acceptedFds accepts
  | .failed _ :: _ => []

/-- The descriptors that `accept` gives in a handler. -/
def acceptedAt (s : TcpServer) : LoopEvent → List Int
  | .dispatch fd (.onRead accepts _) => if 0 < fd ∧ fd = s.acceptorFd then acceptedFds accepts else []
  | _ => []

/-- The descriptors that `accept` gives in a run, one after the other. -/
def acceptedIn (s : TcpServer) : List LoopEvent → List Int
  | [] => []
  | event :: events =>
      s.acceptedAt event ++
        match s.step event with
        | none => []
        | some s' => s'.acceptedIn events

/-- The connections are those of the descriptors accepted, and those that are not closed have them still. -/
structure Tied (fds : List Int) (s : TcpServer) : Prop where
  count : s.accepted = fds.length
  fd : ∀ id c, s.connection id = some c → c.closed = false → fds[id]? = some c.fd

/-- Calls made from `s` left `s'`: some connections were closed. -/
structure Closes (s s' : TcpServer) : Prop where
  events : ∀ fd, s'.events fd = s.events fd ∨ s'.events fd = none ∧ s.events fd ≠ some .acceptor
  closed : ∀ id c, s.connection id = some c → c.closed = true → s'.connection id = some c
  acceptorFd : s'.acceptorFd = s.acceptorFd
  accepted : s'.accepted = s.accepted
  still : ∀ id c, s'.connection id = some c → c.closed = false → s.connection id = some c

section Closes
variable {s s₁ s₂ : TcpServer}

theorem Closes.refl (s : TcpServer) : Closes s s :=
  ⟨fun _ => .inl rfl, fun _ _ h _ => h, rfl, rfl, fun _ _ h _ => h⟩

theorem Closes.trans (h : Closes s s₁) (h' : Closes s₁ s₂) : Closes s s₂ where
  events fd := by
    rcases h'.events fd with hsame' | ⟨hnone', hother'⟩
    · rw [hsame']
      exact h.events fd
    · rcases h.events fd with hsame | ⟨-, hother⟩
      · exact .inr ⟨hnone', hsame ▸ hother'⟩
      · exact .inr ⟨hnone', hother⟩
  closed id c hc hclosed := h'.closed id c (h.closed id c hc hclosed) hclosed
  acceptorFd := h'.acceptorFd.trans h.acceptorFd
  accepted := h'.accepted.trans h.accepted
  still id c hc hopen := h.still id c (h'.still id c hc hopen) hopen

theorem Closes.none (h : Closes s s₁) {fd : Int} (hnone : s.events fd = none) :
    s₁.events fd = none := by
  rcases h.events fd with hsame | ⟨hnone', -⟩
  · rw [hsame, hnone]
  · exact hnone'

theorem Closes.listening (h : Closes s s₁) (hl : s.Listening) : s₁.Listening := by
  unfold Listening at hl ⊢
  rw [h.acceptorFd]
  rcases h.events s.acceptorFd with hsame | ⟨-, hother⟩
  · rw [hsame, hl]
  · exact absurd hl hother

theorem Closes.tied (h : Closes s s₁) {fds : List Int} (ht : s.Tied fds) : s₁.Tied fds :=
  ⟨h.accepted.trans ht.count, fun id c hc hopen => ht.fd id c (h.still id c hc hopen) hopen⟩

end Closes

/-- A callback or function that keeps the books, and only closes. -/
def Keeps (f : TcpServer → TcpServer) : Prop :=
  ∀ s : TcpServer, s.Books → (f s).Books ∧ s.Closes (f s)

theorem Keeps.none : Keeps fun s => s := fun s hb => ⟨hb, .refl s⟩

section Close
variable {s : TcpServer} {id : Nat} {c : ServerConnection}

theorem Books.entry (hb : s.Books) (hc : s.connection id = some c) (hopen : c.closed = false) :
    s.events c.fd = some (.connection id) := (hb.entries c.fd id).mpr ⟨c, hc, hopen, rfl⟩

theorem Books.fresh_update (hb : s.Books) (hc : s.connection id = some c) (c' : ServerConnection) (id' : Nat) :
    Function.update s.connection id (some c') id' = none ↔ s.accepted ≤ id' := by
  by_cases hid : id' = id
  · subst hid
    refine iff_of_false ?_ fun hle => ?_
    · rw [Function.update_self]
      nofun
    · exact absurd (hc.symm.trans ((hb.fresh id').mpr hle)) nofun
  · rw [Function.update_of_ne hid]
    exact hb.fresh id'

theorem connection_injective : Function.Injective EventRef.connection :=
  fun _ _ => EventRef.connection.inj

theorem still_update {c' : ServerConnection} (hdead : ¬ c'.closed = false) (id' : Nat) (c₁ : ServerConnection)
    (hc₁ : Function.update s.connection id (some c') id' = some c₁) (hopen : c₁.closed = false) :
    s.connection id' = some c₁ := by
  by_cases hid : id' = id
  · subst hid
    rw [Function.update_self] at hc₁
    exact absurd (Option.some.inj hc₁ ▸ hopen) hdead
  · rwa [Function.update_of_ne hid] at hc₁

/-- The connection is closed and taken off the books, its descriptor still open. -/
def closing (s : TcpServer) (id : Nat) (c : ServerConnection) : TcpServer :=
  { s with
    connection := Function.update s.connection id (some c)
    connections := s.connections.erase id
    events := Function.update s.events c.fd none }

theorem closing_books (hb : s.Books) (hc : s.connection id = some c) (hopen : c.closed = false)
    {c' : ServerConnection} (hclosed : c'.closed = true) (hfd : c'.fd = c.fd) (hcloses : c'.closes = 1)
    (hdestroys : c'.destroys ≤ 1) : (s.closing id c').Books ∧ s.Closes (s.closing id c') := by
  have hentry := hb.entry hc hopen
  have hdead : ¬ c'.closed = false := fun h => absurd (hclosed.symm.trans h) nofun
  unfold closing
  rw [hfd]
  constructor
  · refine ⟨hb.fresh_update hc c', Lists.retire hb.members hdead,
      Indexes.retire hb.entries connection_injective hc hopen hdead, ?_, Within.remove hb.opened c.fd, ?_⟩
    · intro fd h
      by_cases hfd' : fd = c.fd
      · subst hfd'
        exact absurd ((Function.update_self _ _ _).symm.trans h) nofun
      · exact hb.acceptor fd ((Function.update_of_ne hfd' _ _).symm.trans h)
    · refine forall_update hb.once ?_
      rw [hclosed]
      exact ⟨hcloses, hdestroys⟩
  · refine ⟨?_, ?_, rfl, rfl, ?_⟩
    · intro fd
      by_cases hfd' : fd = c.fd
      · subst hfd'
        refine .inr ⟨Function.update_self _ _ _, ?_⟩
        rw [hentry]
        nofun
      · exact .inl (Function.update_of_ne hfd' _ _)
    · intro id' c₁ hc₁ hclosed₁
      have hne : id' ≠ id := by
        rintro rfl
        obtain rfl := Option.some.inj (hc.symm.trans hc₁)
        exact absurd (hopen.symm.trans hclosed₁) nofun
      exact (Function.update_of_ne hne _ _).trans hc₁
    · exact fun id' c₁ => still_update hdead id' c₁

theorem close_books (hb : s.Books) (hc : s.connection id = some c) (hclosed : c.closed = true)
    (hnone : s.events c.fd = none) : (s.close id).Books := by
  have hdead : ¬ c.closed = false := fun h => absurd (hclosed.symm.trans h) nofun
  unfold close
  rw [hc]
  dsimp only
  split
  · exact ⟨hb.fresh_update hc _, Lists.change hb.members hc Iff.rfl,
      Indexes.change hb.entries hc hdead hdead, hb.acceptor, Within.release hb.opened hnone,
      forall_update hb.once (hb.once id c hc)⟩
  · exact hb

theorem close_closes (hc : s.connection id = some c) (hclosed : c.closed = true) (s₀ : TcpServer) (hs : s₀.Closes s)
    (hopen : ∀ c₀, s₀.connection id = some c₀ → c₀.closed = false) : s₀.Closes (s.close id) := by
  unfold close
  rw [hc]
  dsimp only
  split
  next hpos =>
    refine ⟨hs.events, ?_, hs.acceptorFd, hs.accepted, ?_⟩
    · intro id' c' hc' hclosed'
      have hne : id' ≠ id := by
        rintro rfl
        exact absurd ((hopen c' hc').symm.trans hclosed') nofun
      exact (Function.update_of_ne hne _ _).trans (hs.closed id' c' hc' hclosed')
    · intro id' c' hc' hopen'
      have hdead : ¬ ({ c with fd := -1 } : ServerConnection).closed = false :=
        fun h => absurd (hclosed.symm.trans h) nofun
      exact hs.still id' c' (still_update hdead id' c' hc' hopen') hopen'
  next => exact hs

theorem delEvent_some {fd : Int} {event : EventRef} (h : s.events fd = some event) :
    s.delEvent fd = { s with events := Function.update s.events fd none } := by
  unfold delEvent
  rw [h]

theorem addEvent_none {fd : Int} (h : s.events fd = none) (event : EventRef) :
    s.addEvent fd event = { s with events := Function.update s.events fd (some event) } := by
  unfold addEvent
  rw [h]

theorem onConnectionClose_entry {event : EventRef} (hc : s.connection id = some c)
    (hentry : s.events c.fd = some event)
    (destroy : TcpServer → TcpServer) : s.onConnectionClose destroy id =
      if s.destroyConnectionCb then destroy (s.closing id { c with destroys := c.destroys + 1 })
      else s.closing id c := by
  have hsame : Function.update s.connection id (some c) =
      s.connection := by rw [← hc, Function.update_eq_self]
  unfold onConnectionClose
  rw [hc]
  dsimp only
  rw [@delEvent_some { s with connections := s.connections.erase id } c.fd event hentry]
  unfold closing
  rw [hsame]
  rfl

/-- The close of a connection that is not closed, written out. -/
theorem onClose_open (hb : s.Books) (hc : s.connection id = some c) (hopen : c.closed = false)
    (destroy : TcpServer → TcpServer) : s.onClose destroy id =
      (if s.destroyConnectionCb then
        destroy (s.closing id { c with closed := true, closes := c.closes + 1, destroys := c.destroys + 1 })
      else s.closing id { c with closed := true, closes := c.closes + 1 }).close id := by
  have hclosing : ∀ c₁ c₂, (s.setConnection id c₁).closing id c₂ = s.closing id c₂ := by
    intro c₁ c₂
    unfold setConnection closing
    rw [Function.update_idem]
  have hentry := hb.entry hc hopen
  have hstep := @onConnectionClose_entry (s.setConnection id { c with closed := true, closes := c.closes + 1 }) id
    { c with closed := true, closes := c.closes + 1 } _ (Function.update_self _ _ _) hentry destroy
  rw [hclosing, hclosing] at hstep
  unfold onClose
  rw [hc]
  dsimp only
  rw [hopen, if_neg Bool.false_ne_true, hstep]
  rfl

/-- Closing keeps the books, whatever the destroy callback closes meanwhile. -/
theorem onClose_keeps {destroy : TcpServer → TcpServer} (hdestroy : Keeps destroy) (id : Nat) :
    Keeps fun s => s.onClose destroy id := by
  intro s hb
  dsimp only
  cases hc : s.connection id with
  | none =>
      unfold onClose
      rw [hc]
      exact ⟨hb, .refl s⟩
  | some c =>
      cases hclosed : c.closed with
      | true =>
          unfold onClose
          rw [hc]
          dsimp only
          rw [if_pos hclosed]
          exact ⟨hb, .refl s⟩
      | false =>
          obtain ⟨hcloses, hdestroys⟩ := hb.once id c hc
          rw [hclosed] at hcloses hdestroys
          change c.closes = 0 at hcloses
          change c.destroys ≤ 0 at hdestroys
          rw [onClose_open hb hc hclosed]
          -- the books after the callback, where the connection still has its descriptor
          suffices hafter : ∀ s' c', s'.Books → s.Closes s' → s'.connection id = some c' →
              c'.closed = true →
              s'.events c'.fd = none → (s'.close id).Books ∧ s.Closes (s'.close id) by
            split
            next =>
              obtain ⟨hbooks, hcl⟩ := @closing_books s id c hb hc hclosed
                { c with closed := true, closes := c.closes + 1, destroys := c.destroys + 1 } rfl rfl
                (by dsimp only; omega) (by dsimp only; omega)
              obtain ⟨hbooks', hcl'⟩ := hdestroy _ hbooks
              refine hafter _ _ hbooks' (hcl.trans hcl')
                (hcl'.closed id _ (Function.update_self _ _ _) rfl) rfl ?_
              exact hcl'.none (Function.update_self _ _ _)
            next =>
              obtain ⟨hbooks, hcl⟩ := @closing_books s id c hb hc hclosed
                { c with closed := true, closes := c.closes + 1 } rfl rfl
                (by dsimp only; omega) (by dsimp only; omega)
              exact hafter _ _ hbooks hcl (Function.update_self _ _ _) rfl
                (Function.update_self _ _ _)
          intro s' c' hb' hcl' hc' hclosed' hnone'
          refine ⟨close_books hb' hc' hclosed' hnone', close_closes hc' hclosed' s hcl' ?_⟩
          intro c₀ hc₀
          obtain rfl := Option.some.inj (hc.symm.trans hc₀)
          exact hclosed

end Close

theorem calls_keep (calls : Calls) : Keeps calls.run := by
  induction calls with
  | done => exact Keeps.none
  | forceClose id inside rest hinside hrest =>
      intro s hb
      obtain ⟨hb₁, hcl₁⟩ := onClose_keeps hinside id s hb
      obtain ⟨hb₂, hcl₂⟩ := hrest _ hb₁
      exact ⟨hb₂, hcl₁.trans hcl₂⟩

/-! ## The handlers -/

/-- The books are kept, the acceptor listens, and the connections are those of the descriptors accepted. -/
structure Running (fds : List Int) (s : TcpServer) : Prop where
  books : s.Books
  listening : s.Listening
  tied : s.Tied fds

theorem Keeps.running {f : TcpServer → TcpServer} (hf : Keeps f) {s : TcpServer} {fds : List Int}
    (hs : s.Running fds) : (f s).Running fds := by
  obtain ⟨hb, hcl⟩ := hf s hs.books
  exact ⟨hb, hcl.listening hs.listening, hcl.tied hs.tied⟩

section Handlers
variable {s s' : TcpServer} {fds : List Int}

theorem handsOut_closed {fd : Int} (h : s.handsOut fd = true) : fd ∉ s.opened := by
  unfold handsOut at h
  exact of_decide_eq_true (Bool.and_eq_true_iff.mp h).2

/-- A descriptor without an entry is closed, and the next one registered for the acceptor. -/
theorem openAcceptor_running {fd : Int} (hb : s.Books) (ht : s.Tied fds) (hnone : ∀ fd, s.events fd ≠ some .acceptor)
    (hclosed : s.events s.acceptorFd = none) (h : s.openAcceptor fd = some s') : s'.Running fds := by
  have hopens : ∀ t : TcpServer, t.Books → t.Tied fds → (∀ fd, t.events fd ≠ some .acceptor) →
      t.handsOut fd = true →
      ({ t with acceptorFd := fd, opened := insert fd t.opened }.addEvent fd .acceptor).Running fds := by
    intro t ht htied htnone hfd
    have hunused := Within.none_of_free ht.opened (handsOut_closed hfd)
    rw [@addEvent_none { t with acceptorFd := fd, opened := insert fd t.opened } fd hunused]
    refine ⟨⟨ht.fresh, ht.members, Indexes.other ht.entries ?_ fun _ => nofun, ?_, Within.add ht.opened fd _,
      ht.once⟩, Function.update_self _ _ _, htied.count, htied.fd⟩
    · intro id
      rw [hunused]
      nofun
    · intro fd' h'
      by_cases hne : fd' = fd
      · exact hne
      · exact absurd ((Function.update_of_ne hne _ _).symm.trans h') (htnone fd')
  unfold openAcceptor at h
  dsimp only at h
  by_cases hpos : 0 < s.acceptorFd
  · rw [if_pos hpos] at h
    split at h
    next hfd =>
      rw [← Option.some.inj h]
      refine hopens { s with opened := s.opened.erase s.acceptorFd, acceptorFd := -1 } ?_ ⟨ht.count, ht.fd⟩ hnone hfd
      exact ⟨hb.fresh, hb.members, hb.entries, fun fd' h' => absurd h' (hnone fd'),
        Within.release hb.opened hclosed, hb.once⟩
    next => exact absurd h nofun
  · rw [if_neg hpos] at h
    split at h
    next hfd =>
      rw [← Option.some.inj h]
      exact hopens s hb ht hnone hfd
    next => exact absurd h nofun

theorem start_running {cb : Bool} {socket : Int} (h : start cb socket = some s) : s.Running [] := by
  have hevents : ∀ fd, ({ destroyConnectionCb := cb } : TcpServer).events fd = none := fun _ => rfl
  have hconnection : ∀ id, ({ destroyConnectionCb := cb } : TcpServer).connection id = none := fun _ => rfl
  have hentry : ∀ fd event, ({ destroyConnectionCb := cb } : TcpServer).events fd ≠ some event :=
    fun fd event h => absurd ((hevents fd).symm.trans h) nofun
  have hmade : ∀ id c, ({ destroyConnectionCb := cb } : TcpServer).connection id ≠ some c :=
    fun id c h => absurd ((hconnection id).symm.trans h) nofun
  refine openAcceptor_running ⟨fun _ => iff_of_true rfl (Nat.zero_le _), ?_, ?_, fun fd h => absurd h (hentry fd _),
    fun fd h => absurd (hevents fd) h, fun id c h => absurd h (hmade id c)⟩
    ⟨rfl, fun id c h => absurd h (hmade id c)⟩ (fun fd => hentry fd _) rfl h
  · intro id
    refine iff_of_false (Finset.notMem_empty id) ?_
    rintro ⟨c, hc, -⟩
    exact hmade id c hc
  · intro fd id
    refine iff_of_false (hentry fd _) ?_
    rintro ⟨c, hc, -⟩
    exact hmade id c hc

theorem acceptorOnClose_running {socket : Int} (hs : s.Running fds)
    (h : s.acceptorOnClose socket = some s') : s'.Running fds := by
  obtain ⟨hb, hl, ht⟩ := hs
  unfold acceptorOnClose at h
  rw [delEvent_some hl] at h
  have hself : Function.update s.events s.acceptorFd none s.acceptorFd = none :=
    Function.update_self _ _ _
  have hnone : ∀ fd, Function.update s.events s.acceptorFd none fd ≠ some .acceptor := by
    intro fd h'
    by_cases hne : fd = s.acceptorFd
    · subst hne
      exact absurd (hself.symm.trans h') nofun
    · exact hne (hb.acceptor fd ((Function.update_of_ne hne _ _).symm.trans h'))
  refine @openAcceptor_running { s with events := Function.update s.events s.acceptorFd none } s' fds socket
    ⟨hb.fresh, hb.members, Indexes.other hb.entries ?_ fun _ => nofun, fun fd h' => absurd h' (hnone fd),
      Within.remove hb.opened s.acceptorFd, hb.once⟩ ⟨ht.count, ht.fd⟩ hnone hself h
  intro id
  rw [hl]
  nofun

/-- An accepted connection has a new number and, its descriptor being unused, an entry of its own. -/
theorem onAccet_running {fd : Int} (hs : s.Running fds) (hfd : s.handsOut fd = true)
    (newConnection : Calls) :
    ({ s with opened := insert fd s.opened }.onAccet fd newConnection).Running (fds ++ [fd]) := by
  obtain ⟨hb, hl, ht⟩ := hs
  have hunused := Within.none_of_free hb.opened (handsOut_closed hfd)
  have hfresh := (hb.fresh s.accepted).mpr (Nat.le_refl _)
  have hindexed := Indexes.add (r := { fd }) hb.entries connection_injective hfresh hunused rfl
  unfold onAccet
  dsimp only
  refine (calls_keep newConnection).running ?_
  have hadd := @addEvent_none ({ s with
    accepted := s.accepted + 1
    connections := insert s.accepted s.connections
    opened := insert fd s.opened }.setConnection s.accepted { fd }) fd hunused
  rw [hadd]
  refine ⟨⟨?_, Lists.add hb.members rfl, hindexed, ?_, Within.add hb.opened fd _,
    forall_update hb.once ⟨rfl, Nat.le_refl 0⟩⟩, ?_, ?_⟩
  · intro id
    change Function.update s.connection s.accepted (some { fd }) id = none ↔ s.accepted + 1 ≤ id
    by_cases hid : id = s.accepted
    · subst hid
      refine iff_of_false ?_ (Nat.not_succ_le_self _)
      rw [Function.update_self]
      nofun
    · rw [Function.update_of_ne hid, hb.fresh id]
      omega
  · intro fd' h
    change Function.update s.events fd (some (.connection s.accepted)) fd' = some .acceptor at h
    by_cases hfd' : fd' = fd
    · subst hfd'
      rw [Function.update_self] at h
      exact absurd (Option.some.inj h) nofun
    · exact hb.acceptor fd' ((Function.update_of_ne hfd' _ _).symm.trans h)
  · have hne : s.acceptorFd ≠ fd := by
      intro h
      rw [← h] at hunused
      exact absurd (hl.symm.trans hunused) nofun
    exact (Function.update_of_ne hne _ _).trans hl
  · refine ⟨?_, ?_⟩
    · rw [List.length_append]
      exact congrArg (· + 1) ht.count
    · intro id c hc hopen
      change Function.update s.connection s.accepted (some { fd }) id = some c at hc
      by_cases hid : id = s.accepted
      · subst hid
        rw [Function.update_self] at hc
        rw [← Option.some.inj hc, ht.count]
        exact List.getElem?_concat_length
      · rw [Function.update_of_ne hid] at hc
        have hfound := ht.fd id c hc hopen
        rw [List.getElem?_append_left (List.getElem?_eq_some_iff.mp hfound).1]
        exact hfound

/-- By induction on what `accept` comes back with. -/
theorem acceptorOnRead_running {accepts : List AcceptReturn} (hs : s.Running fds)
    (h : s.acceptorOnRead accepts = some s') : s'.Running (fds ++ acceptedFds accepts) := by
  induction accepts generalizing s fds with
  | nil =>
      rw [acceptedFds, List.append_nil]
      exact Option.some.inj h ▸ hs
  | cons accept accepts ih =>
      cases accept with
      | accepted fd newConnection =>
          unfold acceptorOnRead at h
          split at h
          next hfd =>
            rw [acceptedFds, List.append_cons]
            exact ih (onAccet_running hs hfd newConnection) h
          next => exact absurd h nofun
      | failed socket =>
          rw [acceptedFds, List.append_nil]
          exact acceptorOnClose_running hs h

theorem onClose_running (hs : s.Running fds) (id : Nat) (destroy : Calls) :
    (s.onClose destroy.run id).Running fds :=
  (onClose_keeps (calls_keep destroy) id).running hs

/-- By induction on what `ReadFd` comes back with. -/
theorem readLoop_running (hs : s.Running fds) (id : Nat) (turns : List ReadTurn) :
    (s.readLoop id turns).Running fds := by
  induction turns generalizing s with
  | nil => exact hs
  | cons turn turns ih =>
      unfold readLoop
      cases s.connection id with
      | none => exact hs
      | some c =>
          dsimp only
          split
          · exact onClose_running hs id .done
          · cases turn with
            | got message => exact ih ((calls_keep message).running hs)
            | eof destroy => exact onClose_running hs id destroy
            | failed destroy => exact onClose_running hs id destroy

theorem onRead_running (hs : s.Running fds) (id : Nat) (reads : List ReadTurn) :
    (s.onRead id reads).Running fds := by
  unfold onRead
  cases s.connection id with
  | none => exact hs
  | some c =>
      dsimp only
      split
      · exact hs
      · exact readLoop_running hs id reads

theorem onWrite_running (hs : s.Running fds) (id : Nat) (outcome : WriteOutcome) :
    (s.onWrite id outcome).Running fds := by
  unfold onWrite
  cases s.connection id with
  | none => exact hs
  | some c =>
      dsimp only
      split
      · exact hs
      · cases outcome with
        | pending => exact hs
        | complete writeComplete => exact (calls_keep writeComplete).running hs
        | failed destroy => exact onClose_running hs id destroy

theorem Running.acceptor_iff (hs : s.Running fds) (fd : Int) : s.events fd = some .acceptor ↔ fd = s.acceptorFd :=
  ⟨hs.books.acceptor fd, fun h => h ▸ hs.listening⟩

theorem acceptedAt_nil {fd : Int} (hs : s.Running fds) {call : EventCall} (h : s.events fd ≠ some .acceptor) :
    s.acceptedAt (.dispatch fd call) = [] := by
  unfold acceptedAt
  split
  next heq =>
    injection heq with hfd hcall
    subst hfd
    exact if_neg fun hboth => h ((hs.acceptor_iff _).mpr hboth.2)
  next => rfl

/-- Every handler leaves the books in order, one case for each event. -/
theorem step_running {event : LoopEvent} (hs : s.Running fds) (h : s.step event = some s') :
    s'.Running (fds ++ s.acceptedAt event) := by
  have hsame : s.acceptedAt event = [] → s'.Running fds → s'.Running (fds ++ s.acceptedAt event) := by
    intro hnil hs'
    rwa [hnil, List.append_nil]
  cases event with
  | dispatch fd call =>
      by_cases hfd : fd ≤ 0
      · refine hsame ?_ (Option.some.inj ((if_pos hfd).symm.trans h) ▸ hs)
        unfold acceptedAt
        split
        next heq =>
          injection heq with heq hcall
          subst heq
          exact if_neg fun hboth => absurd hboth.1 (by omega)
        next => rfl
      · replace h := (if_neg hfd).symm.trans h
        cases hevent : s.events fd with
        | none =>
            rw [hevent] at h
            exact hsame (acceptedAt_nil hs (by rw [hevent]; nofun)) (Option.some.inj h ▸ hs)
        | some ref =>
            rw [hevent] at h
            cases ref with
            | acceptor =>
                have hacceptor := (hs.acceptor_iff fd).mp hevent
                cases call with
                | onError => exact hsame rfl (Option.some.inj h ▸ hs)
                | onClose destroy socket => exact hsame rfl (acceptorOnClose_running hs h)
                | onRead accepts reads =>
                    have hat : s.acceptedAt (.dispatch fd (.onRead accepts reads)) = acceptedFds accepts :=
                      if_pos ⟨by omega, hacceptor⟩
                    rw [hat]
                    exact acceptorOnRead_running hs h
                | onWrite outcome => exact hsame rfl (Option.some.inj h ▸ hs)
            | connection id =>
                refine hsame (acceptedAt_nil hs (by rw [hevent]; nofun)) ?_
                cases call with
                | onError => exact Option.some.inj h ▸ hs
                | onClose destroy socket => exact Option.some.inj h ▸ onClose_running hs id destroy
                | onRead accepts reads => exact Option.some.inj h ▸ onRead_running hs id reads
                | onWrite outcome => exact Option.some.inj h ▸ onWrite_running hs id outcome
  | timeout id destroy => exact hsame rfl (Option.some.inj h ▸ onClose_running hs id destroy)
  | function calls => exact hsame rfl (Option.some.inj h ▸ (calls_keep calls).running hs)

theorem run_running {events : List LoopEvent} (hs : s.Running fds) (h : s.run events = some s') :
    s'.Running (fds ++ s.acceptedIn events) := by
  induction events generalizing s fds with
  | nil =>
      rw [acceptedIn, List.append_nil]
      exact Option.some.inj h ▸ hs
  | cons event events ih =>
      obtain ⟨s₁, hstep, hrest⟩ := Option.bind_eq_some_iff.mp h
      have hlater := ih (step_running hs hstep) hrest
      rw [List.append_assoc] at hlater
      rw [acceptedIn, hstep]
      exact hlater

end Handlers

/-- After every handler of every run the server and its loop have exactly the accepted connections
that are not closed, each under its own descriptor, and none was closed or handed to the destroy
callback twice. There is a connection for every descriptor that `accept` gave in the run, and it has
that descriptor until its close handling has run. -/
theorem bookkeeping {destroyConnectionCb : Bool} {socket : Int} {s₀ s : TcpServer}
    {events : List LoopEvent}
    (hstart : start destroyConnectionCb socket = some s₀) (hrun : s₀.run events = some s) :
    (∀ id fd, (s₀.acceptedIn events)[id]? = some fd →
      ∃ c, s.connection id = some c ∧ (c.closed = false → c.fd = fd)) ∧
    (∀ id c, s.connection id = some c → id < (s₀.acceptedIn events).length) ∧
    (∀ id, id ∈ s.connections ↔ ∃ c, s.connection id = some c ∧ c.closed = false) ∧
    (∀ fd id, s.events fd = some (.connection id) ↔
      ∃ c, s.connection id = some c ∧ c.closed = false ∧ c.fd = fd) ∧
    ∀ id c, s.connection id = some c → (c.closed = true ↔ c.closes = 1) ∧ c.closes ≤ 1 ∧ c.destroys ≤ 1 := by
  have hrunning := run_running (start_running hstart) hrun
  rw [List.nil_append] at hrunning
  have hbooks := hrunning.books
  have hmade : ∀ id c, s.connection id = some c → id < (s₀.acceptedIn events).length := by
    intro id c hc
    rw [← hrunning.tied.count]
    by_contra hge
    exact absurd (hc.symm.trans ((hbooks.fresh id).mpr (Nat.le_of_not_lt hge))) nofun
  refine ⟨?_, hmade, hbooks.members, hbooks.entries, ?_⟩
  · intro id fd hfd
    have hlt := (List.getElem?_eq_some_iff.mp hfd).1
    rw [← hrunning.tied.count] at hlt
    cases hc : s.connection id with
    | none => exact absurd ((hbooks.fresh id).mp hc) (Nat.not_le_of_lt hlt)
    | some c =>
        refine ⟨c, rfl, fun hopen => ?_⟩
        exact Option.some.inj ((hrunning.tied.fd id c hc hopen).symm.trans hfd)
  · intro id c hc
    obtain ⟨hcloses, hdestroys⟩ := hbooks.once id c hc
    have hle := Bool.toNat_le c.closed
    refine ⟨?_, hcloses ▸ hle, Nat.le_trans hdestroys hle⟩
    rw [hcloses]
    cases c.closed with
    | true => exact ⟨fun _ => rfl, fun _ => rfl⟩
    | false => exact ⟨nofun, nofun⟩

/-- Two connections; the end of the first closes the second from its destroy callback, and both
descriptors are handed out again in the other order. -/
def reuse : List LoopEvent :=
  [.dispatch 3 (.onRead [.accepted 5 .done, .accepted 6 .done] []),
   .dispatch 5 (.onRead [] [.got .done, .eof (.forceClose 1 .done .done)]),
   .dispatch 3 (.onRead [.accepted 6 .done, .accepted 5 .done] [])]

theorem bookkeeping_reuse : ∃ s₀ s, start true 3 = some s₀ ∧ s₀.run reuse = some s ∧
    s₀.acceptedIn reuse = [5, 6, 6, 5] ∧
    (∃ c, s.connection 2 = some c ∧ (c.closed = false → c.fd = 6)) ∧
    (∀ id, id ∈ s.connections ↔ ∃ c, s.connection id = some c ∧ c.closed = false) ∧
    (∀ fd id, s.events fd = some (.connection id) ↔
      ∃ c, s.connection id = some c ∧ c.closed = false ∧ c.fd = fd) ∧
    ∀ id c, s.connection id = some c → (c.closed = true ↔ c.closes = 1) ∧ c.closes ≤ 1 ∧ c.destroys ≤ 1 := by
  have hsome : (start true 3 >>= fun s => s.run reuse).isSome = true := by decide
  have hfds : (start true 3).map (·.acceptedIn reuse) = some [5, 6, 6, 5] := by decide
  obtain ⟨s, hs⟩ := Option.isSome_iff_exists.mp hsome
  obtain ⟨s₀, hstart, hrun⟩ := Option.bind_eq_some_iff.mp hs
  rw [hstart] at hfds
  have haccepted : s₀.acceptedIn reuse = [5, 6, 6, 5] := Option.some.inj hfds
  obtain ⟨hmade, -, hrest⟩ := bookkeeping hstart hrun
  exact ⟨s₀, s, hstart, hrun, haccepted, hmade 2 6 (by rw [haccepted]; rfl), hrest⟩

end TcpServer
end TmmsServer
