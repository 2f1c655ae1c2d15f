import Mathlib.Logic.Function.Basic
import TmmsServer.Lib.LockOrder
import TmmsServer.Lib.Runs
import TmmsServer.Net.EventLoop

/-!
# The functions given to `EventLoop`

`RunInLoop`, `RunFunctions`, `WakeUp` and the `PipeEvent` behind it, for any number of
loops, each in its own thread, and any number of other threads. A function is known by
the calls of `RunInLoop` it makes. A thread is broken up where it takes or gives back
`lock_` and where it reads or writes the pipe; what the loops do besides may call
`RunInLoop` at any time. What the kernel makes of a write to the pipe is part of the
step, and nothing is assumed of it here.
-/
namespace TmmsServer
open Lib.Epoll Lib.Runs

/-- The thread of a loop, or another one. -/
inductive ThreadId (L : Type) where
  | loop (l : L)
  | other (n : Nat)
  deriving DecidableEq

/-- A call `loop->RunInLoop(func)`. -/
structure TaskCall (L φ : Type) where
  loop : L
  func : φ

/-- What comes of a `write` of eight bytes to a pipe with `O_NONBLOCK`. -/
inductive PipeWrite where
  /-- `EAGAIN`: there is no room. -/
  | refused
  /-- The bytes are in the pipe. Where there were some already, `anew` tells whether they count as an event of their
  own for a descriptor that is registered edge-triggered. -/
  | taken (anew : Bool)
  deriving DecidableEq, Repr

/-- The bytes in the pipe, and its read end. -/
structure PipeEvent where
  bytes : Nat := 0
  fd : Descriptor := {}

namespace PipeEvent

/-- What `AddEvent` makes of a new one. -/
def added : PipeEvent := { fd := ({} : Descriptor).register kEventRead }

/-- `Write` of eight bytes; an error is written to the log, if at all. -/
def write (p : PipeEvent) : PipeWrite → PipeEvent
  | .refused => p
  | .taken anew => ⟨p.bytes + 8, if anew || p.bytes = 0 then p.fd.arrives { epollin := true } else p.fd⟩

/-- `OnRead` takes eight bytes at most. -/
def onRead (p : PipeEvent) : PipeEvent :=
  let bytes := p.bytes - 8
  ⟨bytes, if bytes = 0 then p.fd.ceases { epollin := true } else p.fd⟩

end PipeEvent

/-- Where `loop` is. -/
inductive TaskPhase where
  /-- In `epoll_wait`. -/
  | waiting
  /-- Going through the events reported; that of the pipe is still among them, or not. -/
  | dispatching (pipe : Bool)
  /-- In `RunFunctions`, before it has `lock_`. -/
  | locking
  /-- In the loop of `RunFunctions`. -/
  | running
  /-- In `OnTimer`. -/
  | timers
  deriving DecidableEq

/-- `posted` and `started` are the history of `functions_`: what was pushed, with the thread that pushed it,
and what `RunFunctions` took up. -/
structure TaskLoop (L φ : Type) where
  functions : List φ := []
  lock : Option (ThreadId L) := none
  pipeEvent : Option PipeEvent := none
  phase : TaskPhase := .waiting
  posted : List (ThreadId L × φ) := []
  started : List φ := []

/-- Where a thread is in a `RunInLoop` that pushes. -/
inductive Posting (L φ : Type) where
  | none
  /-- Before it has `lock_`. -/
  | locking (call : TaskCall L φ)
  /-- Before it writes to the pipe. -/
  | waking (l : L)
  /-- Before it gives back `lock_`. -/
  | unlocking (l : L)

/-- The calls that the running functions still make, those of the innermost one first; `calls` is the
history of the calls for other threads. -/
structure TaskThread (L φ : Type) where
  posting : Posting L φ := .none
  frames : List (List (TaskCall L φ)) := []
  calls : List (TaskCall L φ) := []

structure TaskSystem (L φ : Type) where
  loops : L → TaskLoop L φ := fun _ => {}
  threads : ThreadId L → TaskThread L φ := fun _ => {}

inductive TaskAction (L φ : Type) where
  /-- Code that is no function of a loop calls `RunInLoop`. -/
  | call (t : ThreadId L) (call : TaskCall L φ)
  /-- The running function makes its next call, or returns. -/
  | advance (t : ThreadId L)
  | lock (t : ThreadId L)
  /-- `WakeUp`, with what comes of its write. -/
  | wake (t : ThreadId L) (answer : PipeWrite)
  | unlock (t : ThreadId L)
  /-- `epoll_wait` returns; it came to the pipe, or not. -/
  | epollWait (l : L) (pipe : Bool)
  | onRead (l : L)
  | dispatched (l : L)
  | lockFunctions (l : L)
  /-- `RunFunctions` takes up the next function, or ends. -/
  | next (l : L)
  | timersDone (l : L)

/-- The thread that acts. -/
def TaskAction.thread {L φ : Type} : TaskAction L φ → ThreadId L
  | .call t _ | .advance t | .lock t | .wake t _ | .unlock t => t
  | .epollWait l _ | .onRead l | .dispatched l | .lockFunctions l | .next l | .timersDone l => .loop l

/-- No function runs, and none is being pushed. -/
structure TaskThread.Resting {L φ : Type} (thread : TaskThread L φ) : Prop where
  posting : thread.posting = .none
  frames : thread.frames = []

namespace Posting
variable {L φ : Type}

def isNone : Posting L φ → Bool
  | .none => true
  | _ => false

/-- The thread has the lock. -/
def holds [DecidableEq L] (l : L) : Posting L φ → Bool
  | .waking l' | .unlocking l' => l' = l
  | .none | .locking _ => false

/-- The loop whose lock the thread has or wants. -/
def target : Posting L φ → Option L
  | .none => Option.none
  | .locking call => some call.loop
  | .waking l | .unlocking l => some l

theorem isNone_iff {p : Posting L φ} : p.isNone = true ↔ p = .none := by
  cases p <;> simp [isNone]

theorem target_of_holds [DecidableEq L] {p : Posting L φ} {l : L} (h : p.holds l = true) : p.target = some l := by
  cases p <;> simp_all [holds, target]

end Posting

instance {L φ : Type} (thread : TaskThread L φ) : Decidable thread.Resting :=
  decidable_of_iff (thread.posting.isNone = true ∧ thread.frames.isEmpty = true)
    ⟨fun ⟨h₁, h₂⟩ => ⟨Posting.isNone_iff.mp h₁, List.isEmpty_iff.mp h₂⟩,
      fun h => ⟨Posting.isNone_iff.mpr h.posting, List.isEmpty_iff.mpr h.frames⟩⟩

namespace TaskSystem
variable {L φ : Type} [DecidableEq L]

def setLoop (s : TaskSystem L φ) (l : L) (loop : TaskLoop L φ) : TaskSystem L φ :=
  { s with loops := Function.update s.loops l loop }

def setThread (s : TaskSystem L φ) (t : ThreadId L) (thread : TaskThread L φ) : TaskSystem L φ :=
  { s with threads := Function.update s.threads t thread }

/-- Code that is no function runs in the handlers of events and timers, and in the other threads. -/
def mayCall (s : TaskSystem L φ) : ThreadId L → Bool
  | .loop l => (s.loops l).phase = .dispatching true ∨ (s.loops l).phase = .dispatching false ∨
      (s.loops l).phase = .timers
  | .other _ => true

/-- `RunFunctions` is at this thread. -/
def inFunctions (s : TaskSystem L φ) : ThreadId L → Option L
  | .loop l => if (s.loops l).phase = .running then some l else none
  | .other _ => none

variable (body : φ → List (TaskCall L φ))

/-- `RunInLoop`: in the thread of the loop the function runs at once. -/
def runInLoop (t : ThreadId L) (thread : TaskThread L φ) (call : TaskCall L φ) : TaskThread L φ :=
  if t = .loop call.loop then { thread with frames := body call.func :: thread.frames }
  else { thread with posting := .locking call, calls := thread.calls ++ [call] }

/-- The innermost function returns; `RunFunctions` pops the one it has called. -/
def returns (s : TaskSystem L φ) (t : ThreadId L) (outer : List (List (TaskCall L φ))) : TaskSystem L φ :=
  let s' := s.setThread t { s.threads t with frames := outer }
  match s.inFunctions t with
  | some l =>
      if outer.isEmpty then s'.setLoop l { s.loops l with functions := (s.loops l).functions.tail } else s'
  | none => s'

/-- The next step of a thread or a loop; `none` where it cannot take it. -/
def step (s : TaskSystem L φ) : TaskAction L φ → Option (TaskSystem L φ)
  | .call t call =>
      if s.mayCall t ∧ (s.threads t).Resting then some (s.setThread t (runInLoop body t (s.threads t) call))
      else none
  | .advance t =>
      match (s.threads t).posting, (s.threads t).frames with
      | .none, (call :: calls) :: outer =>
          some (s.setThread t (runInLoop body t { s.threads t with frames := calls :: outer } call))
      | .none, [] :: outer => some (s.returns t outer)
      | _, _ => none
  | .lock t =>
      match (s.threads t).posting with
      | .locking ⟨l, f⟩ =>
          let loop := s.loops l
          if loop.lock = none then
            some ((s.setLoop l { loop with
                lock := some t, functions := loop.functions ++ [f], posted := loop.posted ++ [(t, f)] }).setThread t
              { s.threads t with posting := .waking l })
          else none
      | _ => none
  | .wake t answer =>
      match (s.threads t).posting with
      | .waking l =>
          -- the first call makes the pipe and adds it
          let pipe := (s.loops l).pipeEvent.getD .added
          some ((s.setLoop l { s.loops l with pipeEvent := some (pipe.write answer) }).setThread t
            { s.threads t with posting := .unlocking l })
      | _ => none
  | .unlock t =>
      match (s.threads t).posting with
      | .unlocking l =>
          some ((s.setLoop l { s.loops l with lock := none }).setThread t { s.threads t with posting := .none })
      | _ => none
  | .epollWait l false =>
      if (s.loops l).phase = .waiting then some (s.setLoop l { s.loops l with phase := .dispatching false })
      else none
  | .epollWait l true =>
      match (s.loops l).pipeEvent with
      | some pipe =>
          if (s.loops l).phase = .waiting ∧ pipe.fd.queued = true then
            let (ev, fd) := pipe.fd.report
            some (s.setLoop l
              { s.loops l with pipeEvent := some { pipe with fd }, phase := .dispatching ev.isSome })
          else none
      | none => none
  | .onRead l =>
      if (s.loops l).phase = .dispatching true ∧ (s.threads (.loop l)).Resting then
        some (s.setLoop l
          { s.loops l with pipeEvent := (s.loops l).pipeEvent.map (·.onRead), phase := .dispatching false })
      else none
  | .dispatched l =>
      if (s.loops l).phase = .dispatching false ∧ (s.threads (.loop l)).Resting then
        some (s.setLoop l { s.loops l with phase := .locking })
      else none
  | .lockFunctions l =>
      if (s.loops l).phase = .locking ∧ (s.loops l).lock = none then
        some (s.setLoop l { s.loops l with phase := .running, lock := some (.loop l) })
      else none
  | .next l =>
      if (s.loops l).phase = .running ∧ (s.threads (.loop l)).Resting then
        match (s.loops l).functions with
        | [] => some (s.setLoop l { s.loops l with phase := .timers, lock := none })
        | f :: _ =>
            some ((s.setLoop l { s.loops l with started := (s.loops l).started ++ [f] }).setThread (.loop l)
              { s.threads (.loop l) with frames := [body f] })
      else none
  | .timersDone l =>
      if (s.loops l).phase = .timers ∧ (s.threads (.loop l)).Resting then
        some (s.setLoop l { s.loops l with phase := .waiting })
      else none

end TaskSystem
end TmmsServer
