import TmmsServer.Lib.Registry
import TmmsServer.Lib.Runs

/-!
# The sockets of a loop

A loop finds its sockets by their descriptors, and the system gives the descriptor of a
closed socket to another. Before they close, the sockets leave `events_`; a `UdpServer` does
so in `Stop` but not in `OnClose`.
-/
namespace TmmsServer
open Lib Lib.Runs

inductive SocketKind where
  /-- Of a `TcpServer`. -/
  | connection
  | tcpClient
  | udpClient
  | udpServer
  deriving DecidableEq, Repr

/-- A socket, which is in `events_` once it has started. -/
structure LoopSocket where
  kind : SocketKind
  fd : Int
  closed : Bool := false
  /-- Of a client: it is connecting or connected. -/
  connected : Bool := true
  deriving DecidableEq, Repr

structure SocketLoop where
  socket : Nat → Option LoopSocket := fun _ => none
  events : Int → Option Nat := fun _ => none
  /-- What epoll reports on. -/
  registered : Finset Int := ∅
  opened : Finset Int := ∅

inductive SocketAction where
  /-- A new socket gets its descriptor: `OnAccet`, `ConnectInLoop` or `Open`. No object starts twice. -/
  | start (id : Nat) (kind : SocketKind) (fd : Int)
  | onClose (id : Nat)
  /-- `UdpServer::Stop`. -/
  | stop (id : Nat)
  deriving DecidableEq, Repr

namespace SocketLoop

def setSocket (s : SocketLoop) (id : Nat) (c : LoopSocket) : SocketLoop :=
  { s with socket := Function.update s.socket id (some c) }

def addEvent (s : SocketLoop) (fd : Int) (id : Nat) : SocketLoop :=
  match s.events fd with
  | some _ => s
  | none => { s with events := Function.update s.events fd (some id), registered := insert fd s.registered }

def delEvent (s : SocketLoop) (fd : Int) : SocketLoop :=
  match s.events fd with
  | none => s
  | some _ => { s with events := Function.update s.events fd none, registered := s.registered.erase fd }

/-- `Event::Close`; what is closed is not reported on. -/
def close (s : SocketLoop) (id : Nat) (c : LoopSocket) : SocketLoop :=
  if 0 < c.fd then
    { s.setSocket id { c with fd := -1 } with opened := s.opened.erase c.fd, registered := s.registered.erase c.fd }
  else s.setSocket id c

/-- `TcpConnection::OnClose` and `UdpSocket::OnClose`, with callbacks that leave the loop alone: they neither connect
again nor call `Stop` or `DelEvent`. -/
def baseOnClose (s : SocketLoop) (id : Nat) (c : LoopSocket) : SocketLoop :=
  if c.closed then s.setSocket id c else s.close id { c with closed := true }

/-- `OnClose` of the socket's class. The close callback of a connection is `OnConnectionClose`. -/
def socketOnClose (s : SocketLoop) (id : Nat) (c : LoopSocket) : SocketLoop :=
  match c.kind with
  | .connection => if c.closed then s else (s.delEvent c.fd).baseOnClose id c
  | .tcpClient => (if c.connected then s.delEvent c.fd else s).baseOnClose id { c with connected := false }
  | .udpClient => if c.connected then (s.delEvent c.fd).baseOnClose id { c with connected := false } else s
  | .udpServer => s.baseOnClose id c

/-- A socket that starts, before it is added. -/
def create (s : SocketLoop) (id : Nat) (kind : SocketKind) (fd : Int) : SocketLoop :=
  { s.setSocket id { kind, fd } with opened := insert fd s.opened }

/-- The system hands out no descriptor that is open, and no socket starts a second time. -/
def step (s : SocketLoop) : SocketAction → Option SocketLoop
  | .start id kind fd =>
      if s.socket id = none ∧ 0 < fd ∧ fd ∉ s.opened then
        some ((s.create id kind fd).addEvent fd id)
      else none
  | .onClose id => (s.socket id).map (s.socketOnClose id)
  | .stop id =>
      (s.socket id).bind fun c =>
        if c.kind = .udpServer then some ((s.delEvent c.fd).socketOnClose id c) else none

/-- The socket has the descriptor. -/
def Holds (s : SocketLoop) (id : Nat) (fd : Int) : Prop := ∃ c, s.socket id = some c ∧ c.fd = fd

/-- What every run keeps. -/
structure Sound (s : SocketLoop) : Prop where
  fd : ∀ id fd, s.Holds id fd → fd = -1 ∨ 0 < fd ∧ fd ∈ s.opened
  unique : ∀ id id' fd, s.Holds id fd → s.Holds id' fd → 0 < fd → id = id'
  closed : ∀ id c, s.socket id = some c → c.closed = true → c.fd = -1
  entries : ∀ fd id, s.events fd = some id → 0 < fd
  registered : ∀ fd ∈ s.registered, ∃ id, s.events fd = some id ∧ s.Holds id fd

/-- What is kept as long as the sockets leave `events_` before they close. -/
structure Served (s : SocketLoop) : Prop where
  sound : s.Sound
  entries : ∀ fd id, s.events fd = some id → s.Holds id fd
  served : ∀ id fd, s.Holds id fd → 0 < fd → s.events fd = some id ∧ fd ∈ s.registered
  connected : ∀ id c, s.socket id = some c → 0 < c.fd → c.connected = true

variable {s s' t : SocketLoop} {id : Nat} {c : LoopSocket} {n : Int}

theorem closed_not_pos (h : n = -1) : ¬0 < n := by
  rw [h]
  decide

theorem holds_setSocket {id' : Nat} :
    (s.setSocket id c).Holds id' n ↔ id' = id ∧ c.fd = n ∨ id' ≠ id ∧ s.Holds id' n :=
  Registry.exists_update id'

theorem Holds.fd_eq (h : s.Holds id n) (hc : s.socket id = some c) : c.fd = n := by
  obtain ⟨d, hd, hfd⟩ := h
  obtain rfl := Option.some.inj (hc.symm.trans hd)
  exact hfd

theorem sound_initial : ({} : SocketLoop).Sound where
  fd := fun _ _ ⟨_, hc, _⟩ => absurd hc.symm (Option.some_ne_none _)
  unique := fun _ _ _ ⟨_, hc, _⟩ => absurd hc.symm (Option.some_ne_none _)
  closed := fun _ _ hc => absurd hc.symm (Option.some_ne_none _)
  entries := fun _ _ hid => absurd hid.symm (Option.some_ne_none _)
  registered := fun _ hfd => absurd hfd (Finset.notMem_empty _)

/-! ### The operations, in every run -/

theorem delEvent_socket (s : SocketLoop) (fd : Int) : (s.delEvent fd).socket = s.socket := by
  unfold delEvent
  split
  · rfl
  · rfl

theorem delEvent_opened (s : SocketLoop) (fd : Int) : (s.delEvent fd).opened = s.opened := by
  unfold delEvent
  split
  · rfl
  · rfl

theorem delEvent_holds {fd : Int} {id : Nat} : (s.delEvent fd).Holds id n ↔ s.Holds id n := by
  rw [Holds, delEvent_socket, Holds]

/-- The flags of a socket change. -/
theorem Sound.setSocket (h : s.Sound) (hholds : s.Holds id c.fd) (hclosed : c.closed = true → c.fd = -1) :
    (s.setSocket id c).Sound := by
  have hsame : ∀ {id' : Nat} {fd : Int}, (s.setSocket id c).Holds id' fd ↔ s.Holds id' fd := by
    intro id' fd
    rw [holds_setSocket]
    constructor
    · rintro (⟨rfl, rfl⟩ | ⟨-, hold⟩)
      · exact hholds
      · exact hold
    · intro hold
      by_cases hid : id' = id
      · subst hid
        obtain ⟨d, hd, rfl⟩ := hold
        exact .inl ⟨rfl, (hholds.fd_eq hd).symm⟩
      · exact .inr ⟨hid, hold⟩
  refine ⟨fun id' fd hfd => h.fd id' fd (hsame.mp hfd), fun id₁ id₂ fd h₁ h₂ => h.unique id₁ id₂ fd (hsame.mp h₁)
    (hsame.mp h₂), fun id' d hd => ?_, h.entries, fun fd hfd => ?_⟩
  · rcases Registry.update_some.mp hd with ⟨-, rfl⟩ | ⟨-, hold⟩
    · exact hclosed
    · exact h.closed id' d hold
  · obtain ⟨id', hid', hold⟩ := h.registered fd hfd
    exact ⟨id', hid', hsame.mpr hold⟩

theorem Sound.delEvent (h : s.Sound) (fd : Int) : (s.delEvent fd).Sound := by
  refine ⟨fun id' n hn => ?_, fun id₁ id₂ n h₁ h₂ => h.unique id₁ id₂ n (delEvent_holds.mp h₁) (delEvent_holds.mp h₂),
    fun id' c hc => ?_, ?_, ?_⟩
  · rw [delEvent_opened]
    exact h.fd id' n (delEvent_holds.mp hn)
  · rw [delEvent_socket] at hc
    exact h.closed id' c hc
  · intro n id' hid'
    unfold SocketLoop.delEvent at hid'
    split at hid'
    next => exact h.entries n id' hid'
    next =>
      by_cases hn : n = fd
      · subst hn
        exact absurd ((Function.update_self _ _ _).symm.trans hid').symm (Option.some_ne_none _)
      · exact h.entries n id' ((Function.update_of_ne hn _ _).symm.trans hid')
  · intro n hn
    simp only [delEvent_holds]
    unfold SocketLoop.delEvent at hn ⊢
    split at hn
    next hnone => exact h.registered n hn
    next hsome =>
      obtain ⟨hne, hold⟩ := Finset.mem_erase.mp hn
      obtain ⟨id', hid', hholds⟩ := h.registered n hold
      exact ⟨id', (Function.update_of_ne hne _ _).trans hid', hholds⟩

/-- A socket gives its descriptor back. -/
theorem Sound.release (h : s.Sound) (hholds : s.Holds id n) (hn : 0 < n) (hfd : c.fd = -1) :
    ({ s.setSocket id c with opened := s.opened.erase n, registered := s.registered.erase n } :
      SocketLoop).Sound := by
  have hother : ∀ {id' : Nat} {fd : Int}, (s.setSocket id c).Holds id' fd → fd = -1 ∨ s.Holds id' fd ∧ fd ≠ n := by
    intro id' fd hold
    rcases holds_setSocket.mp hold with ⟨-, rfl⟩ | ⟨hid, hold⟩
    · exact .inl hfd
    · exact .inr ⟨hold, fun heq => hid (h.unique id' id n (heq ▸ hold) hholds hn)⟩
  refine ⟨fun id' fd hold => ?_, fun id₁ id₂ fd h₁ h₂ hpos => ?_, fun id' d hd hclosed => ?_, h.entries,
    fun fd hmem => ?_⟩
  · rcases hother hold with hnone | ⟨hold, hne⟩
    · exact .inl hnone
    · exact (h.fd id' fd hold).imp_right fun hopen => ⟨hopen.1, Finset.mem_erase.mpr ⟨hne, hopen.2⟩⟩
  · rcases hother h₁ with rfl | ⟨h₁, -⟩
    · exact absurd hpos (by decide)
    · rcases hother h₂ with rfl | ⟨h₂, -⟩
      · exact absurd hpos (by decide)
      · exact h.unique id₁ id₂ fd h₁ h₂ hpos
  · rcases Registry.update_some.mp hd with ⟨-, rfl⟩ | ⟨-, hold⟩
    · exact hfd
    · exact h.closed id' d hold hclosed
  · obtain ⟨hne, hold⟩ := Finset.mem_erase.mp hmem
    obtain ⟨id', hid', hholds'⟩ := h.registered fd hold
    refine ⟨id', hid', holds_setSocket.mpr (.inr ⟨?_, hholds'⟩)⟩
    rintro rfl
    obtain ⟨d, hd, rfl⟩ := hholds
    exact hne (hholds'.fd_eq hd).symm

theorem Sound.baseOnClose (h : s.Sound) (hholds : s.Holds id c.fd) (hclosed : c.closed = true → c.fd = -1) :
    (s.baseOnClose id c).Sound := by
  unfold SocketLoop.baseOnClose
  split
  · exact h.setSocket hholds hclosed
  · unfold SocketLoop.close
    split
    next hpos => exact h.release hholds hpos rfl
    next hneg =>
      have hfd : c.fd = -1 := (h.fd id c.fd hholds).resolve_right fun hopen => hneg hopen.1
      exact Sound.setSocket h hholds fun _ => hfd

theorem Sound.socketOnClose (h : s.Sound) (hholds : s.Holds id c.fd) (hclosed : c.closed = true → c.fd = -1) :
    (s.socketOnClose id c).Sound := by
  have hdel : ((s.delEvent c.fd).Sound) := h.delEvent c.fd
  have hholds' : (s.delEvent c.fd).Holds id c.fd := delEvent_holds.mpr hholds
  unfold SocketLoop.socketOnClose
  cases c.kind with
  | connection =>
      dsimp only
      split
      · exact h
      · exact hdel.baseOnClose hholds' hclosed
  | tcpClient =>
      dsimp only
      split
      · exact Sound.baseOnClose hdel hholds' hclosed
      · exact Sound.baseOnClose h hholds hclosed
  | udpClient =>
      dsimp only
      split
      · exact Sound.baseOnClose hdel hholds' hclosed
      · exact h
  | udpServer => exact h.baseOnClose hholds hclosed

theorem addEvent_socket (s : SocketLoop) (fd : Int) (id : Nat) :
    (s.addEvent fd id).socket = s.socket ∧ (s.addEvent fd id).opened = s.opened := by
  unfold addEvent
  split
  · exact ⟨rfl, rfl⟩
  · exact ⟨rfl, rfl⟩

theorem create_holds {kind : SocketKind} {id' : Nat} {fd : Int} (hnone : s.socket id = none) :
    (s.create id kind n).Holds id' fd ↔ id' = id ∧ n = fd ∨ s.Holds id' fd := by
  refine holds_setSocket.trans (or_congr_right (and_iff_right_of_imp ?_))
  rintro ⟨c, hc, -⟩ rfl
  exact absurd (hnone.symm.trans hc).symm (Option.some_ne_none c)

theorem Sound.free (h : s.Sound) (hn : 0 < n) (hfree : n ∉ s.opened) (id' : Nat) : ¬s.Holds id' n := by
  intro hold
  rcases h.fd id' n hold with rfl | ⟨-, hopen⟩
  · exact absurd hn (by decide)
  · exact hfree hopen

theorem Sound.start (h : s.Sound) (kind : SocketKind) (hnone : s.socket id = none) (hn : 0 < n)
    (hfree : n ∉ s.opened) : ((s.create id kind n).addEvent n id).Sound := by
  obtain ⟨hsocket, hopened⟩ := (s.create id kind n).addEvent_socket n id
  have hholds : ∀ {id' : Nat} {fd : Int},
      ((s.create id kind n).addEvent n id).Holds id' fd ↔ id' = id ∧ n = fd ∨ s.Holds id' fd := by
    intro id' fd
    rw [Holds, hsocket]
    exact create_holds hnone
  refine ⟨fun id' fd hold => ?_, fun id₁ id₂ fd h₁ h₂ hpos => ?_, fun id' d hd hclosed => ?_, fun fd id' hid' => ?_,
    fun fd hmem => ?_⟩
  · rw [hopened]
    rcases hholds.mp hold with ⟨-, rfl⟩ | hold
    · exact .inr ⟨hn, Finset.mem_insert_self _ _⟩
    · exact (h.fd id' fd hold).imp_right fun hopen => ⟨hopen.1, Finset.mem_insert_of_mem hopen.2⟩
  · rcases hholds.mp h₁ with ⟨rfl, rfl⟩ | hold₁
    · rcases hholds.mp h₂ with ⟨rfl, -⟩ | hold₂
      · rfl
      · exact absurd hold₂ (h.free hn hfree id₂)
    · rcases hholds.mp h₂ with ⟨rfl, rfl⟩ | hold₂
      · exact absurd hold₁ (h.free hn hfree id₁)
      · exact h.unique id₁ id₂ fd hold₁ hold₂ hpos
  · rw [hsocket] at hd
    rcases Registry.update_some.mp hd with ⟨-, rfl⟩ | ⟨-, hold⟩
    · exact absurd hclosed Bool.false_ne_true
    · exact h.closed id' d hold hclosed
  · unfold addEvent at hid'
    split at hid'
    next => exact h.entries fd id' hid'
    next =>
      by_cases hfd : fd = n
      · rw [hfd]
        exact hn
      · exact h.entries fd id' ((Function.update_of_ne hfd _ _).symm.trans hid')
  · simp only [hholds]
    unfold addEvent at hmem ⊢
    split at hmem
    next =>
      obtain ⟨id', hid', hold⟩ := h.registered fd hmem
      exact ⟨id', hid', .inr hold⟩
    next hfree' =>
      rcases Finset.mem_insert.mp hmem with rfl | hmem
      · exact ⟨id, Function.update_self _ _ _, .inl ⟨rfl, rfl⟩⟩
      · obtain ⟨id', hid', hold⟩ := h.registered fd hmem
        have hne : fd ≠ n := by
          rintro rfl
          exact absurd (Eq.trans hfree'.symm hid').symm (Option.some_ne_none id')
        exact ⟨id', (Function.update_of_ne hne _ _).trans hid', .inr hold⟩

theorem Sound.step (h : s.Sound) {a : SocketAction} (hstep : s.step a = some s') : s'.Sound := by
  cases a with
  | start id kind fd =>
      obtain ⟨⟨hnone, hn, hfree⟩, hstep⟩ := Option.ite_none_right_eq_some.mp hstep
      cases hstep
      exact h.start kind hnone hn hfree
  | onClose id =>
      obtain ⟨c, hc, rfl⟩ := Option.map_eq_some_iff.mp hstep
      exact h.socketOnClose ⟨c, hc, rfl⟩ (h.closed id c hc)
  | stop id =>
      obtain ⟨c, hc, hstop⟩ := Option.bind_eq_some_iff.mp hstep
      obtain ⟨-, hstop⟩ := Option.ite_none_right_eq_some.mp hstop
      cases hstop
      exact (h.delEvent c.fd).socketOnClose (delEvent_holds.mpr ⟨c, hc, rfl⟩) (h.closed id c hc)

theorem run_sound {actions : List SocketAction} (h : run step {} actions = some s) : s.Sound :=
  run_invariant (fun _ _ _ hsound hstep => hsound.step hstep) sound_initial h

/-! ### What happens to other descriptors -/

/-- Nothing changes for the descriptor. -/
structure Same (n : Int) (s s' : SocketLoop) : Prop where
  events : s'.events n = s.events n
  registered : n ∈ s'.registered ↔ n ∈ s.registered
  holds : ∀ id, s'.Holds id n ↔ s.Holds id n

theorem Same.trans {s'' : SocketLoop} (h : Same n s s') (h' : Same n s' s'') : Same n s s'' where
  events := h'.events.trans h.events
  registered := h'.registered.trans h.registered
  holds := fun id => (h'.holds id).trans (h.holds id)

theorem same_delEvent {fd : Int} (hne : n ≠ fd) : Same n s (s.delEvent fd) := by
  refine ⟨?_, ?_, fun id => delEvent_holds⟩
  · unfold delEvent
    split
    · rfl
    · exact Function.update_of_ne hne _ _
  · unfold delEvent
    split
    · exact Iff.rfl
    · exact Finset.mem_erase.trans (and_iff_right hne)

theorem same_setSocket {fd : Int} (hholds : s.Holds id fd) (hne : n ≠ fd) (hfd : c.fd ≠ n) :
    Same n s (s.setSocket id c) := by
  refine ⟨rfl, Iff.rfl, fun id' => holds_setSocket.trans ⟨?_, fun hold => .inr ⟨?_, hold⟩⟩⟩
  · rintro (⟨-, heq⟩ | ⟨-, hold⟩)
    · exact absurd heq hfd
    · exact hold
  · rintro rfl
    obtain ⟨d, hd, rfl⟩ := hholds
    exact hne (hold.fd_eq hd).symm

theorem same_baseOnClose (hn : 0 < n) (hholds : s.Holds id c.fd) (hne : n ≠ c.fd) :
    Same n s (s.baseOnClose id c) := by
  unfold baseOnClose
  split
  · exact same_setSocket hholds hne hne.symm
  · unfold SocketLoop.close
    split
    · have hset := same_setSocket (c := { c with closed := true, fd := -1 }) hholds hne fun heq =>
        closed_not_pos heq.symm hn
      exact ⟨hset.events, Finset.mem_erase.trans (and_iff_right hne), hset.holds⟩
    · exact same_setSocket (c := { c with closed := true }) hholds hne hne.symm

theorem same_socketOnClose (hn : 0 < n) (hholds : s.Holds id c.fd) (hne : n ≠ c.fd) :
    Same n s (s.socketOnClose id c) := by
  have hdel : Same n s (s.delEvent c.fd) := same_delEvent hne
  have hholds' : (s.delEvent c.fd).Holds id c.fd := delEvent_holds.mpr hholds
  have hrefl : Same n s s := ⟨rfl, Iff.rfl, fun _ => Iff.rfl⟩
  unfold socketOnClose
  cases c.kind with
  | connection =>
      dsimp only
      split
      · exact hrefl
      · exact hdel.trans (same_baseOnClose hn hholds' hne)
  | tcpClient =>
      dsimp only
      split
      · exact hdel.trans (same_baseOnClose hn hholds' hne)
      · exact same_baseOnClose hn hholds hne
  | udpClient =>
      dsimp only
      split
      · exact hdel.trans (same_baseOnClose hn hholds' hne)
      · exact hrefl
  | udpServer => exact same_baseOnClose hn hholds hne

theorem same_start (kind : SocketKind) {fd : Int} (hnone : s.socket id = none) (hne : n ≠ fd) :
    Same n s ((s.create id kind fd).addEvent fd id) := by
  have hcreate : Same n s (s.create id kind fd) :=
    ⟨rfl, Iff.rfl, fun id' => (create_holds hnone).trans (or_iff_right fun h => hne h.2.symm)⟩
  refine hcreate.trans ⟨?_, ?_, fun id' => ?_⟩
  · unfold addEvent
    split
    · rfl
    · exact Function.update_of_ne hne _ _
  · unfold addEvent
    split
    · exact Iff.rfl
    · exact Finset.mem_insert.trans (or_iff_right hne)
  · rw [Holds, (addEvent_socket _ fd id).1, Holds]

/-- A step that neither starts a socket with the descriptor nor closes the one that has it. -/
theorem same_step (hn : 0 < n) {a : SocketAction} (hstep : s.step a = some s')
    (hstart : ∀ id kind, a ≠ .start id kind n) (hclose : ∀ id, s.Holds id n → a ≠ .onClose id ∧ a ≠ .stop id) :
    Same n s s' := by
  cases a with
  | start id kind fd =>
      obtain ⟨⟨hnone, -, -⟩, hstep⟩ := Option.ite_none_right_eq_some.mp hstep
      cases hstep
      exact same_start kind hnone fun heq => hstart id kind (heq ▸ rfl)
  | onClose id =>
      obtain ⟨c, hc, rfl⟩ := Option.map_eq_some_iff.mp hstep
      exact same_socketOnClose hn ⟨c, hc, rfl⟩ fun heq => (hclose id ⟨c, hc, heq.symm⟩).1 rfl
  | stop id =>
      obtain ⟨c, hc, hstop⟩ := Option.bind_eq_some_iff.mp hstep
      obtain ⟨-, hstop⟩ := Option.ite_none_right_eq_some.mp hstop
      cases hstop
      have hne : n ≠ c.fd := fun heq => (hclose id ⟨c, hc, heq.symm⟩).2 rfl
      exact (same_delEvent hne).trans (same_socketOnClose hn (delEvent_holds.mpr ⟨c, hc, rfl⟩) hne)

/-! ### Sockets that leave the table -/

theorem Sound.delEvent_closed (h : s.Sound) (hn : n = -1) : s.delEvent n = s := by
  unfold SocketLoop.delEvent
  split
  · rfl
  next id hid => exact absurd (h.entries n id hid) (closed_not_pos hn)

/-- A closed socket changes its flags. -/
theorem Served.setSocket (h : s.Served) (hholds : s.Holds id c.fd) (hfd : c.fd = -1) :
    (s.setSocket id c).Served := by
  have hsame : ∀ {id' : Nat} {fd : Int}, 0 < fd → ((s.setSocket id c).Holds id' fd ↔ s.Holds id' fd) := by
    intro id' fd hpos
    rw [holds_setSocket]
    constructor
    · rintro (⟨-, rfl⟩ | ⟨-, hold⟩)
      · exact absurd hpos (closed_not_pos hfd)
      · exact hold
    · intro hold
      refine .inr ⟨?_, hold⟩
      rintro rfl
      obtain ⟨d, hd, hdfd⟩ := hholds
      have heq : d.fd = fd := hold.fd_eq hd
      exact closed_not_pos (heq.symm.trans (hdfd.trans hfd)) hpos
  refine ⟨h.sound.setSocket hholds fun _ => hfd, fun fd id' hid' => ?_, fun id' fd hold hpos => ?_,
    fun id' d hd hpos => ?_⟩
  · exact (hsame (h.sound.entries fd id' hid')).mpr (h.entries fd id' hid')
  · exact h.served id' fd ((hsame hpos).mp hold) hpos
  · rcases Registry.update_some.mp hd with ⟨-, rfl⟩ | ⟨-, hold⟩
    · exact absurd hpos (closed_not_pos hfd)
    · exact h.connected id' d hold hpos

/-- A socket leaves the table and closes. -/
theorem Served.retire (h : s.Served) (hholds : s.Holds id c.fd) (hclosed : c.closed = true → c.fd = -1) :
    ((s.delEvent c.fd).baseOnClose id c).Served := by
  rcases h.sound.fd id c.fd hholds with hfd | ⟨hpos, -⟩
  · rw [h.sound.delEvent_closed hfd]
    unfold baseOnClose SocketLoop.close
    split
    · exact h.setSocket hholds hfd
    · rw [if_neg (closed_not_pos hfd)]
      exact Served.setSocket h hholds hfd
  · have hopen : c.closed = false := Bool.eq_false_iff.mpr fun htrue => absurd hpos (closed_not_pos (hclosed htrue))
    have hsound := (h.sound.delEvent c.fd).baseOnClose (delEvent_holds.mpr hholds) hclosed
    obtain ⟨hentry, hmem⟩ := h.served id c.fd hholds hpos
    have hsame : ∀ {fd : Int}, 0 < fd → fd ≠ c.fd → Same fd s ((s.delEvent c.fd).baseOnClose id c) := fun hfd hne =>
      (same_delEvent hne).trans (same_baseOnClose hfd (delEvent_holds.mpr hholds) hne)
    have hretired : (s.delEvent c.fd).baseOnClose id c = {
        s.setSocket id { c with closed := true, fd := -1 } with
        events := Function.update s.events c.fd none
        registered := (s.registered.erase c.fd).erase c.fd
        opened := s.opened.erase c.fd } := by
      simp [baseOnClose, SocketLoop.close, delEvent, hentry, hopen, hpos, SocketLoop.setSocket]
    have hgone : ∀ id', ¬((s.delEvent c.fd).baseOnClose id c).Holds id' c.fd := by
      intro id' hold
      rw [hretired] at hold
      rcases holds_setSocket.mp hold with ⟨-, heq⟩ | ⟨hid, hold⟩
      · exact closed_not_pos heq.symm hpos
      · exact hid (h.sound.unique id' id c.fd hold hholds hpos)
    refine ⟨hsound, fun fd id' hid' => ?_, fun id' fd hold hfd => ?_, fun id' d hd hfd => ?_⟩
    · have hfd := hsound.entries fd id' hid'
      have hne : fd ≠ c.fd := by
        rintro rfl
        rw [hretired] at hid'
        exact absurd ((Function.update_self _ _ _).symm.trans hid').symm (Option.some_ne_none id')
      exact ((hsame hfd hne).holds id').mpr (h.entries fd id' ((hsame hfd hne).events.symm.trans hid'))
    · have hne : fd ≠ c.fd := fun heq => hgone id' (heq ▸ hold)
      obtain ⟨hid', hmem'⟩ := h.served id' fd (((hsame hfd hne).holds id').mp hold) hfd
      exact ⟨(hsame hfd hne).events.trans hid', (hsame hfd hne).registered.mpr hmem'⟩
    · rw [hretired] at hd
      rcases Registry.update_some.mp hd with ⟨-, rfl⟩ | ⟨-, hold⟩
      · exact absurd hfd (closed_not_pos rfl)
      · exact h.connected id' d hold hfd

/-- A socket that starts is added. -/
theorem Served.start (h : s.Served) {kind : SocketKind} (hnone : s.socket id = none) (hn : 0 < n)
    (hfree : n ∉ s.opened) : ((s.create id kind n).addEvent n id).Served := by
  have hunused : s.events n = none := by
    cases hentry : s.events n with
    | none => rfl
    | some id' => exact absurd (h.entries n id' hentry) (h.sound.free hn hfree id')
  have hadd : (s.create id kind n).addEvent n id = {
      s.create id kind n with
      events := Function.update s.events n (some id)
      registered := insert n s.registered } := by
    have hcreate : (s.create id kind n).events n = none := hunused
    unfold addEvent
    rw [hcreate]
    rfl
  have hsound := h.sound.start kind hnone hn hfree
  have hnew : ∀ id', ((s.create id kind n).addEvent n id).Holds id' n ↔ id' = id := by
    intro id'
    rw [hadd]
    refine (create_holds hnone).trans ⟨?_, fun heq => .inl ⟨heq, rfl⟩⟩
    rintro (⟨heq, -⟩ | hold)
    · exact heq
    · exact absurd hold (h.sound.free hn hfree id')
  refine ⟨hsound, fun fd id' hid' => ?_, fun id' fd hold hfd => ?_, fun id' d hd hfd => ?_⟩
  · by_cases hne : fd = n
    · subst hne
      rw [hadd] at hid'
      have hid : some id = some id' := (Function.update_self fd (some id) s.events).symm.trans hid'
      exact (hnew id').mpr (Option.some.inj hid).symm
    · have hsame := same_start kind hnone hne
      exact (hsame.holds id').mpr (h.entries fd id' (hsame.events.symm.trans hid'))
  · by_cases hne : fd = n
    · subst hne
      rw [(hnew id').mp hold, hadd]
      exact ⟨Function.update_self _ _ _, Finset.mem_insert_self _ _⟩
    · have hsame := same_start kind hnone hne
      obtain ⟨hid', hmem⟩ := h.served id' fd ((hsame.holds id').mp hold) hfd
      exact ⟨hsame.events.trans hid', hsame.registered.mpr hmem⟩
  · rw [hadd] at hd
    rcases Registry.update_some.mp hd with ⟨-, rfl⟩ | ⟨-, hold⟩
    · rfl
    · exact h.connected id' d hold hfd

/-- All kinds of sockets but the `UdpServer` leave the table in `OnClose`. -/
theorem Served.socketOnClose (h : s.Served) (hc : s.socket id = some c) (hkind : c.kind ≠ .udpServer) :
    (s.socketOnClose id c).Served := by
  have hclosed := h.sound.closed id c hc
  have hretire := h.retire (c := { c with connected := false }) ⟨c, hc, rfl⟩ hclosed
  unfold SocketLoop.socketOnClose
  cases hk : c.kind with
  | connection =>
      dsimp only
      split
      · exact h
      · exact h.retire ⟨c, hc, rfl⟩ hclosed
  | tcpClient =>
      rw [hk] at hretire
      dsimp only
      split
      · exact hretire
      next hnot =>
        have hfd : c.fd = -1 := (h.sound.fd id c.fd ⟨c, hc, rfl⟩).resolve_right fun hopen =>
          hnot (h.connected id c hc hopen.1)
        rwa [h.sound.delEvent_closed hfd] at hretire
  | udpClient =>
      rw [hk] at hretire
      dsimp only
      split
      · exact hretire
      · exact h
  | udpServer => exact absurd hk hkind

theorem Served.stop (h : s.Served) (hc : s.socket id = some c) (hkind : c.kind = .udpServer) :
    ((s.delEvent c.fd).socketOnClose id c).Served := by
  have hretire := h.retire (c := c) ⟨c, hc, rfl⟩ (h.sound.closed id c hc)
  unfold SocketLoop.socketOnClose
  rw [hkind]
  exact hretire

/-- The kinds of the sockets are those they were started with. -/
def Started (actions : List SocketAction) (s : SocketLoop) : Prop :=
  ∀ id c, s.socket id = some c → ∃ fd, .start id c.kind fd ∈ actions

theorem baseOnClose_kind {id' : Nat} {d : LoopSocket} (hd : (s.baseOnClose id c).socket id' = some d) :
    id' = id ∧ d.kind = c.kind ∨ s.socket id' = some d := by
  have hset : ∀ c' : LoopSocket, c'.kind = c.kind → Function.update s.socket id (some c') id' = some d →
      id' = id ∧ d.kind = c.kind ∨ s.socket id' = some d := by
    intro c' hkind hold
    rcases Registry.update_some.mp hold with ⟨hid, rfl⟩ | ⟨-, hold⟩
    · exact .inl ⟨hid, hkind⟩
    · exact .inr hold
  unfold baseOnClose at hd
  split at hd
  · exact hset c rfl hd
  · unfold SocketLoop.close at hd
    split at hd
    · exact hset { c with closed := true, fd := -1 } rfl hd
    · exact hset { c with closed := true } rfl hd

theorem socketOnClose_kind {id' : Nat} {d : LoopSocket} (hd : (s.socketOnClose id c).socket id' = some d) :
    id' = id ∧ d.kind = c.kind ∨ s.socket id' = some d := by
  have hdel : ∀ {c' : LoopSocket}, c'.kind = c.kind → ((s.delEvent c.fd).baseOnClose id c').socket id' = some d →
      id' = id ∧ d.kind = c.kind ∨ s.socket id' = some d := by
    intro c' hkind hd
    have hafter := baseOnClose_kind hd
    rwa [hkind, delEvent_socket] at hafter
  unfold socketOnClose at hd
  cases hk : c.kind with
  | connection =>
      simp only [hk] at hd hdel
      split at hd
      · exact .inr hd
      · exact hdel hk hd
  | tcpClient =>
      simp only [hk] at hd hdel
      split at hd
      · exact hdel rfl hd
      · exact baseOnClose_kind hd
  | udpClient =>
      simp only [hk] at hd hdel
      split at hd
      · exact hdel rfl hd
      · exact .inr hd
  | udpServer =>
      simp only [hk] at hd
      rw [← hk]
      exact baseOnClose_kind hd

theorem Started.step {actions : List SocketAction} (h : s.Started actions) {a : SocketAction} (ha : a ∈ actions)
    (hstep : s.step a = some s') : s'.Started actions := by
  intro id' d hd
  cases a with
  | start id kind fd =>
      obtain ⟨-, hstep⟩ := Option.ite_none_right_eq_some.mp hstep
      cases hstep
      rw [(addEvent_socket _ fd id).1] at hd
      rcases Registry.update_some.mp hd with ⟨rfl, rfl⟩ | ⟨-, hold⟩
      · exact ⟨fd, ha⟩
      · exact h id' d hold
  | onClose id =>
      obtain ⟨c, hc, rfl⟩ := Option.map_eq_some_iff.mp hstep
      rcases socketOnClose_kind hd with ⟨rfl, hkind⟩ | hold
      · rw [hkind]
        exact h id' c hc
      · exact h id' d hold
  | stop id =>
      obtain ⟨c, hc, hstop⟩ := Option.bind_eq_some_iff.mp hstep
      obtain ⟨-, hstop⟩ := Option.ite_none_right_eq_some.mp hstop
      cases hstop
      rcases socketOnClose_kind hd with ⟨rfl, hkind⟩ | hold
      · rw [hkind]
        exact h id' c hc
      · rw [delEvent_socket] at hold
        exact h id' d hold

/-- What such a run keeps. -/
structure Kept (actions : List SocketAction) (s : SocketLoop) : Prop where
  served : s.Served
  started : s.Started actions

/-- Its entry stays, and nobody has the descriptor but, perhaps, one socket. -/
structure Blocked (server : Nat) (n : Int) (holder : Option Nat) (s : SocketLoop) : Prop where
  entry : s.events n = some server
  quiet : n ∉ s.registered
  holds : ∀ id, s.Holds id n ↔ holder = some id

theorem Blocked.of_same {server : Nat} {holder : Option Nat} (h : s.Blocked server n holder) (hsame : Same n s s') :
    s'.Blocked server n holder where
  entry := hsame.events.trans h.entry
  quiet := fun hmem => h.quiet (hsame.registered.mp hmem)
  holds := fun id => (hsame.holds id).trans (h.holds id)

/-- What a `UdpServer` leaves behind. -/
theorem Sound.blocked (h : s.Sound) (hc : s.socket id = some c) (hkind : c.kind = .udpServer) (hn : 0 < c.fd)
    (hentry : s.events c.fd = some id) : (s.socketOnClose id c).Blocked id c.fd none := by
  have hopen : c.closed = false := Bool.eq_false_iff.mpr fun htrue => closed_not_pos (h.closed id c hc htrue) hn
  have hclose : s.socketOnClose id c = {
      s.setSocket id { c with closed := true, fd := -1 } with
      opened := s.opened.erase c.fd
      registered := s.registered.erase c.fd } := by
    simp [SocketLoop.socketOnClose, hkind, SocketLoop.baseOnClose, SocketLoop.close, hopen, hn]
  rw [hclose]
  refine ⟨hentry, Finset.notMem_erase _ _, fun id' => iff_of_false (fun hold => ?_) (Option.some_ne_none id').symm⟩
  rcases holds_setSocket.mp hold with ⟨-, heq⟩ | ⟨hid, hold⟩
  · exact closed_not_pos heq.symm hn
  · exact hid (h.unique id' id c.fd hold ⟨c, hc, rfl⟩ hn)

theorem Blocked.start {server : Nat} (h : s.Blocked server n none) {kind : SocketKind} (hnone : s.socket id = none) :
    ((s.create id kind n).addEvent n id).Blocked server n (some id) := by
  have hadd : (s.create id kind n).addEvent n id = s.create id kind n := by
    have hentry : (s.create id kind n).events n = some server := h.entry
    unfold addEvent
    rw [hentry]
  rw [hadd]
  refine ⟨h.entry, h.quiet, fun id' => (create_holds hnone).trans ?_⟩
  simp [h.holds, eq_comm]

theorem Sound.not_started (h : s.Sound) (hholds : s.Holds id n) (hn : 0 < n) (next : Nat) (kind : SocketKind) :
    s.step (.start next kind n) = none := by
  refine if_neg fun hall => ?_
  exact h.free hn hall.2.2 id hholds

/-- Until the descriptor is handed out, and as long as the socket that got it lives, nothing changes. -/
theorem Blocked.run {server : Nat} {holder : Option Nat} {actions : List SocketAction} (hn : 0 < n)
    (hsound : s.Sound) (h : s.Blocked server n holder)
    (hstart : holder = none → ∀ id kind, .start id kind n ∉ actions)
    (hclose : ∀ id, holder = some id → .onClose id ∉ actions ∧ .stop id ∉ actions)
    (hrun : run step s actions = some s') : s'.Sound ∧ s'.Blocked server n holder := by
  refine run_invariant_of (I := fun t => t.Sound ∧ t.Blocked server n holder) (fun t a t' ha hboth hstep => ?_)
    ⟨hsound, h⟩ (fun a ha => ha : ∀ a ∈ actions, a ∈ actions) hrun
  obtain ⟨hsoundt, hblocked⟩ := hboth
  refine ⟨hsoundt.step hstep, hblocked.of_same (same_step hn hstep ?_ ?_)⟩
  · rintro id kind rfl
    cases hholder : holder with
    | none => exact hstart hholder id kind ha
    | some next =>
        have hnone := hsoundt.not_started ((hblocked.holds next).mpr hholder) hn id kind
        exact absurd (hstep.symm.trans hnone) (Option.some_ne_none t')
  · intro id hold
    obtain ⟨hnotClose, hnotStop⟩ := hclose id ((hblocked.holds id).mp hold)
    exact ⟨fun heq => hnotClose (heq ▸ ha), fun heq => hnotStop (heq ▸ ha)⟩

/-- A `UdpServer` closed by an error, a timeout or `ForceClose`, whose close callback calls neither `Stop` nor
`DelEvent`, stays in `events_`: the next socket that is given its descriptor is not added, and nothing is reported to
it as long as it lives. -/
theorem closed_server_blocks {history before after : List SocketAction} (h : run step {} history = some s)
    (hc : s.socket id = some c) (hkind : c.kind = .udpServer) (hn : 0 < c.fd) (hentry : s.events c.fd = some id)
    {next : Nat} {kind : SocketKind}
    (hrun : run step s (.onClose id :: before ++ .start next kind c.fd :: after) = some s')
    (hbefore : ∀ id' kind', .start id' kind' c.fd ∉ before) (hafter : .onClose next ∉ after ∧ .stop next ∉ after) :
    s'.Holds next c.fd ∧ s'.events c.fd = some id ∧ c.fd ∉ s'.registered := by
  have hblocked := (run_sound h).blocked hc hkind hn hentry
  rw [List.cons_append] at hrun
  obtain ⟨t, hclose, hrun⟩ := run_cons_iff.mp hrun
  rw [run_append] at hrun
  obtain ⟨u, hbetween, hrun⟩ := Option.bind_eq_some_iff.mp hrun
  obtain ⟨v, hstart, hlast⟩ := run_cons_iff.mp hrun
  have ht : t = s.socketOnClose id c := by
    rw [step, hc] at hclose
    exact (Option.some.inj hclose).symm
  rw [ht] at hbetween
  have hsound := (run_sound h).step (hclose.trans (congrArg some ht))
  obtain ⟨hsoundu, hu⟩ := hblocked.run hn hsound (fun _ => hbefore)
    (fun _ hnone => absurd hnone.symm (Option.some_ne_none _)) hbetween
  have hsoundv := hsoundu.step hstart
  obtain ⟨⟨hnone, -, -⟩, hstart⟩ := Option.ite_none_right_eq_some.mp hstart
  cases hstart
  obtain ⟨-, hend⟩ := (hu.start hnone).run hn hsoundv (fun hsome => absurd hsome (Option.some_ne_none next)) (by
    rintro id' hid'
    obtain rfl := Option.some.inj hid'
    exact hafter) hlast
  exact ⟨(hend.holds next).mpr rfl, hend.entry, hend.quiet⟩

/-- The descriptor of a `UdpServer` that was closed goes to a connection. -/
theorem closed_server_blocks_connection : ∃ s s', run step {} [.start 0 .udpServer 7] = some s ∧
    run step s (.onClose 0 :: [.start 1 .connection 8] ++ .start 2 .connection 7 :: [.onClose 1]) = some s' ∧
    s'.Holds 2 7 ∧ 7 ∉ s'.registered := by
  have hbegin : (run step {} [.start 0 .udpServer 7]).any (fun s =>
      s.socket 0 == some { kind := .udpServer, fd := 7 } && s.events 7 == some 0 &&
        (run step s (.onClose 0 :: [.start 1 .connection 8] ++ .start 2 .connection 7 :: [.onClose 1])).isSome) =
      true := by decide
  obtain ⟨s, hs, hbegin⟩ := (Option.any_eq_true _ _).mp hbegin
  simp only [Bool.and_eq_true, beq_iff_eq] at hbegin
  obtain ⟨⟨hsocket, hentry⟩, hsome⟩ := hbegin
  obtain ⟨s', hs'⟩ := Option.isSome_iff_exists.mp hsome
  obtain ⟨hholds, -, hquiet⟩ := closed_server_blocks hs hsocket rfl (by decide) hentry hs' (by simp) (by simp)
  exact ⟨s, s', hs, hs', hholds, hquiet⟩

end SocketLoop
end TmmsServer
