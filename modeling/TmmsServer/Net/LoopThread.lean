import TmmsServer.Lib.Runs

/-!
# `EventLoopThread`

The thread waits on a condition variable until `Run` is called, and `Run` on a promise until
the thread has its loop. The destructor calls `Run`, `Quit` and `join`. Each step is what one
thread does between two points where the other may come in.

`thread_` is declared, and so the thread started, before `running_`, `lock_`, `condition_`, `once_`
and `promise_loop_`: `construct` is the end of the constructor, and the thread may be at `lock_`
before it.
-/
namespace TmmsServer
open Lib.Runs

/-- Where `startEventLoop` is. -/
inductive LoopPhase where
  /-- Before it gets `lock_`, or woken in `wait`. -/
  | locking
  /-- In `wait`, without `lock_`. -/
  | asleep
  /-- Behind `wait`, with `lock_` up to its end. -/
  | started
  /-- `loop_` is set. -/
  | published
  /-- The promise has its value. -/
  | entering
  /-- In the `while` of `EventLoop::loop`. -/
  | looping
  | leaving
  | ended
  /-- It took `lock_` before `lock_` was there: no step is known of it. -/
  | undefined
  deriving DecidableEq, Repr

namespace LoopPhase

def hasLock : LoopPhase → Bool
  | .started | .published | .entering | .looping | .leaving => true
  | .locking | .asleep | .ended | .undefined => false

end LoopPhase

/-- Where the `call_once` of `Run` is. -/
inductive RunPhase where
  | idle
  /-- The first caller is in it, before it gets `lock_`. -/
  | locking
  /-- In `get` of the future. -/
  | getting
  /-- `Run` has returned to the first caller, and returns to every other. -/
  | done
  deriving DecidableEq, Repr

/-- Where the destructor is. -/
inductive DestructorPhase where
  /-- It is not called yet. -/
  | alive
  /-- In `Run`. -/
  | running
  /-- It has seen `loop_`. -/
  | quitting
  | joining
  | destroyed
  deriving DecidableEq, Repr

/-- `constructed` tells whether the constructor is through, `loop` whether `loop_` points to the loop of the thread,
`looping` is `looping_` of that loop, and `promised` tells whether `promise_loop_` has its value. -/
structure LoopThread where
  constructed : Bool := false
  thread : LoopPhase := .locking
  once : RunPhase := .idle
  destructor : DestructorPhase := .alive
  running : Bool := false
  loop : Bool := false
  promised : Bool := false
  looping : Bool := false
  deriving DecidableEq, Repr

inductive ThreadAction where
  | construct
  /-- The thread gets `lock_` and looks at `running_`. -/
  | lock
  /-- A spurious wake-up. -/
  | wake
  | setLoop
  | setValue
  | enter
  /-- `loop` looks at `looping_` after a pass. -/
  | turn
  | leave
  /-- `Run` is called for the first time. -/
  | run
  | notify
  | get
  | destroy
  | checkLoop
  | quit
  | join
  deriving DecidableEq, Repr

namespace LoopThread

/-- What comes next; `none` where it cannot. -/
def step (s : LoopThread) : ThreadAction → Option LoopThread
  | .construct => if s.constructed then none else some { s with constructed := true }
  | .lock =>
      if s.thread = .locking then
        some { s with
          thread := if !s.constructed then .undefined else if s.running then .started else .asleep }
      else none
  | .wake => if s.thread = .asleep then some { s with thread := .locking } else none
  | .setLoop => if s.thread = .started then some { s with thread := .published, loop := true } else none
  | .setValue => if s.thread = .published then some { s with thread := .entering, promised := true } else none
  | .enter => if s.thread = .entering then some { s with thread := .looping, looping := true } else none
  | .turn =>
      if s.thread = .looping then some { s with thread := if s.looping then .looping else .leaving } else none
  | .leave => if s.thread = .leaving then some { s with thread := .ended, loop := false } else none
  | .run => if s.once = .idle ∧ s.constructed then some { s with once := .locking } else none
  | .notify =>
      if s.once = .locking ∧ s.thread.hasLock = false then
        some { s with once := .getting, running := true, thread := if s.thread = .asleep then .locking else s.thread }
      else none
  | .get => if s.once = .getting ∧ s.promised then some { s with once := .done } else none
  | .destroy => if s.destructor = .alive ∧ s.constructed then some { s with destructor := .running } else none
  | .checkLoop =>
      if s.destructor = .running ∧ s.once = .done then
        some { s with destructor := if s.loop then .quitting else .joining }
      else none
  | .quit => if s.destructor = .quitting then some { s with destructor := .joining, looping := false } else none
  | .join =>
      if s.destructor = .joining ∧ s.thread = .ended then some { s with destructor := .destroyed } else none

/-- What every run keeps. -/
structure Sound (s : LoopThread) : Prop where
  constructed : s.once = .idle ∨ s.constructed = true
  running : s.running = true ↔ s.once = .getting ∨ s.once = .done
  awake : s.running = true → s.thread ≠ .asleep
  started : s.thread = .locking ∨ s.thread = .asleep ∨ s.thread = .undefined ∨ s.running = true
  promised :
    s.promised = true ↔ s.thread = .entering ∨ s.thread = .looping ∨ s.thread = .leaving ∨ s.thread = .ended
  loop : s.loop = true ↔ s.thread.hasLock = true ∧ s.thread ≠ .started
  done : s.once = .done → s.promised = true
  waited : s.once = .done ∨ s.destructor = .alive ∨ s.destructor = .running
  looping : s.looping = true ∨ s.thread ≠ .looping ∨ s.destructor = .joining
  unended : s.thread ≠ .leaving ∧ s.thread ≠ .ended ∨ s.destructor = .joining ∨ s.destructor = .destroyed

variable {s s' : LoopThread}

theorem sound_initial : ({} : LoopThread).Sound where
  constructed := by decide
  running := by decide
  awake := by decide
  started := by decide
  promised := by decide
  loop := by decide
  done := by decide
  waited := by decide
  looping := by decide
  unended := by decide

theorem Sound.step (h : s.Sound) {a : ThreadAction} (hstep : s.step a = some s') : s'.Sound := by
  obtain ⟨hconstructed, hrunning, hawake, hstarted, hpromised, hloop, hdone, hwaited, hlooping, hunended⟩ := h
  cases a with
  | construct =>
      obtain ⟨hat, hstep⟩ := Option.ite_none_left_eq_some.mp hstep
      cases hstep
      constructor <;> simp_all
  | lock =>
      obtain ⟨hat, hstep⟩ := Option.ite_none_right_eq_some.mp hstep
      cases hstep
      constructor <;> cases hc : s.constructed <;> cases hr : s.running <;> simp_all [LoopPhase.hasLock]
  | wake =>
      obtain ⟨hat, hstep⟩ := Option.ite_none_right_eq_some.mp hstep
      cases hstep
      constructor <;> simp_all [LoopPhase.hasLock]
  | setLoop =>
      obtain ⟨hat, hstep⟩ := Option.ite_none_right_eq_some.mp hstep
      cases hstep
      constructor <;> simp_all [LoopPhase.hasLock]
  | setValue =>
      obtain ⟨hat, hstep⟩ := Option.ite_none_right_eq_some.mp hstep
      cases hstep
      constructor <;> simp_all [LoopPhase.hasLock]
  | enter =>
      obtain ⟨hat, hstep⟩ := Option.ite_none_right_eq_some.mp hstep
      cases hstep
      constructor <;> simp_all [LoopPhase.hasLock]
  | turn =>
      obtain ⟨hat, hstep⟩ := Option.ite_none_right_eq_some.mp hstep
      cases hstep
      constructor <;> cases hl : s.looping <;> simp_all [LoopPhase.hasLock]
  | leave =>
      obtain ⟨hat, hstep⟩ := Option.ite_none_right_eq_some.mp hstep
      cases hstep
      constructor <;> simp_all [LoopPhase.hasLock]
  | run =>
      obtain ⟨hat, hstep⟩ := Option.ite_none_right_eq_some.mp hstep
      cases hstep
      constructor <;> simp_all
  | notify =>
      obtain ⟨hat, hstep⟩ := Option.ite_none_right_eq_some.mp hstep
      cases hstep
      constructor <;> cases ht : s.thread <;> simp_all [LoopPhase.hasLock]
  | get =>
      obtain ⟨hat, hstep⟩ := Option.ite_none_right_eq_some.mp hstep
      cases hstep
      constructor <;> simp_all
  | destroy =>
      obtain ⟨hat, hstep⟩ := Option.ite_none_right_eq_some.mp hstep
      cases hstep
      constructor <;> simp_all
  | checkLoop =>
      obtain ⟨hat, hstep⟩ := Option.ite_none_right_eq_some.mp hstep
      cases hstep
      constructor <;> cases hl : s.loop <;> cases ht : s.thread <;> simp_all [LoopPhase.hasLock]
  | quit =>
      obtain ⟨hat, hstep⟩ := Option.ite_none_right_eq_some.mp hstep
      cases hstep
      constructor <;> simp_all
  | join =>
      obtain ⟨hat, hstep⟩ := Option.ite_none_right_eq_some.mp hstep
      cases hstep
      constructor <;> simp_all

theorem run_sound {actions : List ThreadAction} (h : run step {} actions = some s) : s.Sound :=
  run_invariant (fun _ _ _ hsound hstep => hsound.step hstep) sound_initial h

/-! ### `Run` -/

-- the thread may well be first: a `Run` called then has nobody to wait for
example : (run step {} [.lock, .construct, .run, .notify]).map (·.thread) = some .undefined := by decide

/-! ### The destructor -/

/-- The destructor is in `join`, and the thread in `loop` for good. -/
structure Stuck (s : LoopThread) : Prop where
  constructed : s.constructed = true
  joining : s.destructor = .joining
  called : s.once = .done
  inside : s.thread = .entering ∨ s.thread = .looping ∧ s.looping = true

theorem Stuck.step (h : s.Stuck) {a : ThreadAction} (hstep : s.step a = some s') : s'.Stuck := by
  obtain ⟨hconstructed, hjoining, hcalled, hinside⟩ := h
  rcases hinside with ht | ⟨ht, hl⟩ <;> cases a <;>
    simp [LoopThread.step, hconstructed, hjoining, hcalled, ht] at hstep <;> subst hstep
  · exact ⟨rfl, rfl, rfl, .inr ⟨rfl, rfl⟩⟩
  · exact ⟨rfl, rfl, rfl, .inr ⟨by simp [hl], hl⟩⟩

end LoopThread
end TmmsServer
