import TmmsServer.Lib.Runs
import TmmsServer.Lib.Watch
import TmmsServer.Net.TcpClient

/-!
# `Acceptor`

The listening socket in its loop. Connections come into the backlog at any time, also
between two calls of `accept4`; where a call fails the acceptor opens another socket, and
what was in the backlog is reset.
-/
namespace TmmsServer
open Lib.Epoll Lib.Runs

/-- What becomes of a connection that came. -/
inductive Fate where
  | accepted
  | reset
  deriving DecidableEq, Repr

/-- What `Accept` comes back with. -/
inductive AcceptResult where
  | got
  | eagain
  | eintr
  | failed
  deriving DecidableEq, Repr

/-- The socket after `Open`: it is added to the loop before it listens. -/
def listener : Watch where
  fd := (TcpClient.freshDescriptor.register kEventRead).ceases { epollout := true, epollhup := true }

/-- The connections that came, in `arrived`, and what became of the first of them; the others are in the backlog. -/
structure Acceptor where
  watch : Watch := listener
  backlog : List Nat := []
  fates : List (Nat × Fate) := []
  arrived : List Nat := []
  deriving DecidableEq, Repr

inductive AcceptorAction where
  | connect (id : Nat)
  | epollWait
  /-- The loop calls the handler of the event. -/
  | handle
  /-- A turn of the loop in `OnRead`. -/
  | accept (result : AcceptResult)
  deriving DecidableEq, Repr

namespace Acceptor

/-- `OnClose`: `Stop` and `Open`. -/
def onClose (a : Acceptor) : Acceptor :=
  { a with watch := listener, backlog := [], fates := a.fates ++ a.backlog.map (·, .reset) }

def onRead (a : Acceptor) : Acceptor := { a with watch := a.watch.enter }

/-- `OnError` and `OnWrite` do nothing. The descriptor is a positive one, and always registered. -/
def handle (a : Acceptor) (ev : Events) : Acceptor :=
  match handlerOf ev with
  | .onRead => a.onRead
  | .onClose => { a with watch := a.watch.skip }.onClose
  | .onError | .onWrite | .none => { a with watch := a.watch.skip }

/-- `Accept`, and what `OnRead` does with it. A call would block only on an empty backlog. -/
def acceptTurn (a : Acceptor) : AcceptResult → Option Acceptor
  | .got =>
      match a.backlog with
      | [] => none
      | id :: rest =>
          some { a with backlog := rest, fates := a.fates ++ [(id, .accepted)], watch := a.watch.took rest.isEmpty }
  | .eagain => if a.backlog.isEmpty then some { a with watch := a.watch.leave } else none
  | .eintr => some { a with watch := a.watch.leave }
  | .failed => some a.onClose

def step (a : Acceptor) : AcceptorAction → Option Acceptor
  | .connect id => some {
      a with
      backlog := a.backlog ++ [id]
      arrived := a.arrived ++ [id]
      watch := a.watch.arrives { epollin := true } }
  | .epollWait => a.watch.wait.map fun watch => { a with watch }
  | .handle => a.watch.reported.map a.handle
  | .accept result => if a.watch.reading then a.acceptTurn result else none

/-- What every run keeps. -/
structure Sound (a : Acceptor) : Prop where
  books : a.fates.map Prod.fst ++ a.backlog = a.arrived
  interest : a.watch.fd.interest = some kEventRead
  conditions : a.watch.fd.conditions = { epollin := !a.backlog.isEmpty }
  reported : ∀ ev, a.watch.reported = some ev → handlerOf ev = .onRead

variable {a a' : Acceptor}

theorem Sound.wanted (h : a.Sound) : a.watch.fd.wanted.has .readable = true := by
  rw [Descriptor.wanted, h.interest]
  rfl

theorem Sound.readable (h : a.Sound) : a.watch.fd.conditions.has .readable = !a.backlog.isEmpty := by
  rw [h.conditions]
  rfl

theorem Sound.reportable (h : a.Sound) : a.watch.fd.reportable = { epollin := !a.backlog.isEmpty } := by
  rw [Descriptor.reportable, Descriptor.wanted, h.interest, h.conditions]
  generalize a.backlog.isEmpty = empty
  cases empty <;> rfl

theorem sound_initial : ({} : Acceptor).Sound where
  books := rfl
  interest := rfl
  conditions := rfl
  reported := fun ev hev => by cases hev

theorem Sound.onClose (h : a.Sound) : a.onClose.Sound where
  books := by
    have hbooks := h.books
    have hfirst : (a.backlog.map (·, Fate.reset)).map Prod.fst = a.backlog := by
      rw [List.map_map]
      exact List.map_id a.backlog
    simp only [Acceptor.onClose, List.map_append, hfirst, List.append_nil]
    exact hbooks
  interest := rfl
  conditions := rfl
  reported := fun ev hev => by cases hev

theorem Sound.enter (h : a.Sound) : a.onRead.Sound where
  books := h.books
  interest := h.interest
  conditions := h.conditions
  reported := fun ev hev => by cases hev

theorem Sound.leave (h : a.Sound) : ({ a with watch := a.watch.leave } : Acceptor).Sound where
  books := h.books
  interest := h.interest
  conditions := h.conditions
  reported := h.reported

theorem Sound.took (h : a.Sound) {id : Nat} {rest : List Nat} (hbacklog : a.backlog = id :: rest) :
    ({ a with
      backlog := rest
      fates := a.fates ++ [(id, .accepted)]
      watch := a.watch.took rest.isEmpty } : Acceptor).Sound where
  books := by
    have hbooks := h.books
    rw [hbacklog] at hbooks
    simpa using hbooks
  interest := (Watch.took_interest _ _).trans h.interest
  conditions := by
    have hconditions := h.conditions
    rw [hbacklog] at hconditions
    cases rest with
    | nil => simp [Watch.took, Descriptor.ceases, hconditions]; decide
    | cons id' rest => simpa [Watch.took] using hconditions
  reported := by
    have hreported := h.reported
    cases rest with
    | nil => exact hreported
    | cons id' rest => exact hreported

theorem Sound.acceptTurn (h : a.Sound) (hreading : a.watch.reading = true) {result : AcceptResult}
    (hstep : a.acceptTurn result = some a') :
    a'.Sound ∧ (result ≠ .eintr → a'.watch.idle = true → a'.backlog = []) := by
  cases result with
  | got =>
      unfold Acceptor.acceptTurn at hstep
      cases hbacklog : a.backlog with
      | nil => simp [hbacklog] at hstep
      | cons id rest =>
          simp only [hbacklog, Option.some.injEq] at hstep
          subst hstep
          refine ⟨h.took hbacklog, fun _ hidle => ?_⟩
          exact absurd (hidle.symm.trans (Watch.took_not_idle hreading _)) (by decide)
  | eagain =>
      obtain ⟨hempty, hstep⟩ := Option.ite_none_right_eq_some.mp hstep
      cases hstep
      exact ⟨h.leave, fun _ _ => List.isEmpty_iff.mp hempty⟩
  | eintr =>
      cases hstep
      exact ⟨h.leave, fun hne => absurd rfl hne⟩
  | failed =>
      cases hstep
      exact ⟨h.onClose, fun _ _ => rfl⟩

/-- After anything but an interrupted call, a thread that sleeps has emptied the backlog. -/
theorem Sound.step (h : a.Sound) {act : AcceptorAction} (hstep : a.step act = some a') :
    a'.Sound ∧ (act ≠ .accept .eintr → a'.watch.idle = true → a'.backlog = []) := by
  cases act with
  | connect id =>
      cases hstep
      refine ⟨⟨?_, h.interest, ?_, h.reported⟩, fun _ hidle => ?_⟩
      · rw [← h.books, List.append_assoc]
      · have hconditions := h.conditions
        simp only [Watch.arrives, Descriptor.arrives, hconditions]
        cases a.backlog <;> rfl
      · exact absurd (hidle.symm.trans (Watch.arrives_not_idle h.wanted rfl)) (by decide)
  | epollWait =>
      obtain ⟨watch, hwait, rfl⟩ := Option.map_eq_some_iff.mp hstep
      obtain ⟨hconditions, hinterest, -⟩ := Watch.wait_fd hwait
      refine ⟨⟨h.books, hinterest.trans h.interest, hconditions.trans h.conditions, fun ev hev => ?_⟩,
        fun _ hidle => ?_⟩
      · obtain ⟨rfl, hany⟩ := Watch.wait_reported hwait hev
        rw [h.reportable] at hany ⊢
        generalize a.backlog.isEmpty = empty at hany ⊢
        cases empty with
        | true => exact absurd hany (by decide)
        | false => rfl
      · have hnone := Watch.wait_idle hwait h.wanted hidle
        rw [h.readable] at hnone
        simpa using hnone
  | handle =>
      obtain ⟨ev, hev, rfl⟩ := Option.map_eq_some_iff.mp hstep
      have hread : a.handle ev = a.onRead := by rw [Acceptor.handle, h.reported ev hev]
      rw [hread]
      exact ⟨h.enter, fun _ hidle => absurd (hidle.symm.trans a.watch.enter_not_idle) (by decide)⟩
  | accept result =>
      obtain ⟨hreading, hturn⟩ := Option.ite_none_right_eq_some.mp hstep
      obtain ⟨hsound, hempty⟩ := h.acceptTurn hreading hturn
      exact ⟨hsound, fun hne => hempty fun hresult => hne (congrArg _ hresult)⟩

/-- Only a call that fails resets connections. -/
theorem Sound.step_accepts (h : a.Sound) {act : AcceptorAction} (hstep : a.step act = some a')
    (hact : act ≠ .accept .failed) (hfates : ∀ f ∈ a.fates, f.2 = .accepted) : ∀ f ∈ a'.fates, f.2 = .accepted := by
  cases act with
  | connect id =>
      cases hstep
      exact hfates
  | epollWait =>
      obtain ⟨watch, -, rfl⟩ := Option.map_eq_some_iff.mp hstep
      exact hfates
  | handle =>
      obtain ⟨ev, hev, rfl⟩ := Option.map_eq_some_iff.mp hstep
      rw [Acceptor.handle, h.reported ev hev]
      exact hfates
  | accept result =>
      obtain ⟨-, hturn⟩ := Option.ite_none_right_eq_some.mp hstep
      cases result with
      | got =>
          unfold Acceptor.acceptTurn at hturn
          cases hbacklog : a.backlog with
          | nil => simp [hbacklog] at hturn
          | cons id rest =>
              simp only [hbacklog, Option.some.injEq] at hturn
              subst hturn
              intro f hf
              rcases List.mem_append.mp hf with hold | hnew
              · exact hfates f hold
              · rw [List.mem_singleton.mp hnew]
      | eagain =>
          obtain ⟨-, hturn⟩ := Option.ite_none_right_eq_some.mp hturn
          cases hturn
          exact hfates
      | eintr =>
          cases hturn
          exact hfates
      | failed => exact absurd rfl hact

theorem run_sound {actions : List AcceptorAction} (h : run step {} actions = some a) : a.Sound :=
  run_invariant (fun _ _ _ hsound hstep => (hsound.step hstep).1) sound_initial h

/-- Nothing was reset. -/
structure Kept (a : Acceptor) : Prop where
  sound : a.Sound
  accepted : ∀ f ∈ a.fates, f.2 = .accepted

theorem run_kept {actions : List AcceptorAction} (h : run step {} actions = some a)
    (hactions : .accept .failed ∉ actions) : a.Kept := by
  have hinitial : ({} : Acceptor).Kept := ⟨sound_initial, fun f hf => absurd hf List.not_mem_nil⟩
  refine run_invariant_of (fun b act b' hact hkept hstep => ?_) hinitial
    (fun act hact heq => hactions (heq ▸ hact) : ∀ act ∈ actions, act ≠ .accept .failed) h
  exact ⟨(hkept.sound.step hstep).1, hkept.sound.step_accepts hstep hact hkept.accepted⟩

/-- Over every run the connections are dealt with in the order they came, each once, and those of the backlog are
the last. Whenever the loop sleeps with nothing to wake it, no connection waits, unless the call before was
interrupted. If no call failed, none was reset. -/
theorem acceptor_serves {actions : List AcceptorAction} (h : run step {} actions = some a) :
    a.fates.map Prod.fst ++ a.backlog = a.arrived ∧
      (a.watch.idle = true → a.backlog = [] ∨ actions.getLast? = some (.accept .eintr)) ∧
      (.accept .failed ∉ actions → ∀ f ∈ a.fates, f.2 = .accepted) := by
  refine ⟨(run_sound h).books, fun hidle => ?_, fun hactions => (run_kept h hactions).accepted⟩
  rcases List.eq_nil_or_concat actions with rfl | ⟨before, act, rfl⟩
  · cases h
    exact .inl rfl
  · rw [List.concat_eq_append] at h ⊢
    obtain ⟨b, hbefore, hstep⟩ := run_concat_iff.mp h
    by_cases hact : act = .accept .eintr
    · exact .inr (by rw [hact, List.getLast?_concat])
    · exact .inl (((run_sound hbefore).step hstep).2 hact hidle)

/-- The second of three connections comes in the loop of `OnRead`, the third while the loop waits. -/
theorem acceptor_serves_three : ∃ a, run step {} [.connect 1, .epollWait, .handle, .accept .got, .connect 2,
      .accept .got, .accept .eagain, .epollWait, .connect 3, .epollWait, .handle, .accept .got, .accept .eagain] =
        some a ∧ a.fates.map Prod.fst = a.arrived ∧ ∀ f ∈ a.fates, f.2 = .accepted := by
  have hrun : (run step {} [.connect 1, .epollWait, .handle, .accept .got, .connect 2, .accept .got, .accept .eagain,
      .epollWait, .connect 3, .epollWait, .handle, .accept .got, .accept .eagain]).any (·.watch.idle) = true := by
    decide
  obtain ⟨a, ha, hidle⟩ := (Option.any_eq_true _ _).mp hrun
  obtain ⟨hbooks, hbacklog, hfates⟩ := acceptor_serves ha
  have hempty : a.backlog = [] := (hbacklog hidle).resolve_right (by decide)
  rw [hempty, List.append_nil] at hbooks
  exact ⟨a, ha, hbooks, hfates (by decide)⟩

end Acceptor
end TmmsServer
