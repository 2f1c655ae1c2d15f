import TmmsServer.Net.TaskRuns

/-!
# Wake-ups for functions

`WakeUp` writes to a pipe whose read end is registered edge-triggered, and the handler
takes eight bytes of it at a time. As long as the pipe has room and counts each write
as new input, no loop blocks with a function in its queue and nothing to wake it.
`WakeUp` does not look at what the write comes back with: where the pipe is full the
loop is left to the timeout of `epoll_wait`.
-/
namespace TmmsServer
open Lib.Epoll Lib.Runs

namespace PipeEvent
variable {p : PipeEvent} {answer : PipeWrite}

/-- A pipe that `AddEvent` registered. -/
structure Sound (p : PipeEvent) : Prop where
  interest : p.fd.interest = some kEventRead
  readable : p.fd.conditions.epollin = true ↔ 0 < p.bytes

theorem Sound.wanted (h : p.Sound) : p.fd.wanted.has .readable = true := by
  unfold Descriptor.wanted
  rw [h.interest]
  rfl

theorem added_sound : added.Sound where
  interest := rfl
  readable := by simp [added, Descriptor.register]

theorem Sound.write (h : p.Sound) (answer : PipeWrite) : (p.write answer).Sound := by
  cases answer with
  | refused => exact h
  | taken anew =>
      unfold PipeEvent.write
      dsimp only
      split
      next =>
        refine ⟨h.interest, ?_⟩
        simp only [Descriptor.arrives]
        exact iff_of_true (Bool.or_true _) (Nat.succ_pos _)
      next hnot =>
        have hbytes : 0 < p.bytes := by
          rw [Bool.or_eq_true, decide_eq_true_iff] at hnot
          exact Nat.pos_of_ne_zero fun h0 => hnot (.inr h0)
        exact ⟨h.interest, iff_of_true (h.readable.mpr hbytes) (Nat.succ_pos _)⟩

theorem Sound.write_queued (h : p.Sound) : (p.write (.taken true)).fd.queued = true :=
  Descriptor.arrives_queued h.wanted (c := .readable) rfl

theorem Sound.onRead (h : p.Sound) : p.onRead.Sound := by
  unfold PipeEvent.onRead
  dsimp only
  split
  next hempty =>
    refine ⟨h.interest, ?_⟩
    change (p.fd.conditions.epollin && !true) = true ↔ 0 < p.bytes - 8
    rw [Bool.not_true, Bool.and_false, hempty]
    exact iff_of_false Bool.false_ne_true (Nat.lt_irrefl 0)
  next hmore =>
    have hbytes : 0 < p.bytes - 8 := Nat.pos_of_ne_zero hmore
    exact ⟨h.interest, iff_of_true (h.readable.mpr (Nat.lt_of_lt_of_le hbytes (Nat.sub_le _ _))) hbytes⟩

theorem Sound.report (h : p.Sound) : Sound { p with fd := p.fd.report.2 } := by
  unfold Descriptor.report
  split
  · exact ⟨h.interest, h.readable⟩
  · exact ⟨h.interest, h.readable⟩

theorem Sound.report_some (h : p.Sound) (hbytes : 0 < p.bytes) : p.fd.report.1.isSome = true := by
  by_contra hnot
  have hquiet := Descriptor.report_none (c := .readable) (Option.not_isSome_iff_eq_none.mp hnot)
  have hreadable : p.fd.conditions.has .readable = true := h.readable.mpr hbytes
  rw [Descriptor.reportable, Events.has_and, hreadable, h.wanted] at hquiet
  cases hquiet

end PipeEvent

/-- The loop will be woken. -/
def TaskLoop.Called {L φ : Type} (loop : TaskLoop L φ) : Prop :=
  ∃ p, loop.pipeEvent = some p ∧ p.fd.queued = true ∧ 0 < p.bytes

/-- `RunFunctions` is behind it, and `epoll_wait` next. -/
def TaskPhase.past : TaskPhase → Bool
  | .waiting | .timers => true
  | _ => false

/-- What is asked of a pipe: it takes the eight bytes of every `WakeUp`, and they are an event for the read end
also where there are bytes already. -/
def PipeTakes {L φ : Type} : TaskAction L φ → Prop
  | .wake _ answer => answer = .taken true
  | _ => True

namespace TaskSystem
variable {L φ : Type} [DecidableEq L] {body : φ → List (TaskCall L φ)}
  {s s' : TaskSystem L φ} {a : TaskAction L φ}

/-- A thread is about to write to the pipe of the loop. -/
def Waking (s : TaskSystem L φ) (l : L) : Prop := ∃ t, (s.threads t).posting = .waking l

/-- The pipes are sound. -/
def Alert (s : TaskSystem L φ) : Prop := ∀ l p, (s.loops l).pipeEvent = some p → p.Sound

omit [DecidableEq L] in
theorem Alert.pipe (h : s.Alert) (l : L) : ((s.loops l).pipeEvent.getD .added).Sound := by
  cases hpipe : (s.loops l).pipeEvent with
  | none => exact PipeEvent.added_sound
  | some p => exact h l p hpipe

/-- Whatever is in the queue when `RunFunctions` is through has someone to wake the loop for it. -/
def Attended (s : TaskSystem L φ) : Prop :=
  ∀ l, (s.loops l).phase.past = true → (s.loops l).functions ≠ [] → s.Waking l ∨ (s.loops l).Called

theorem Alert.setLoop {l : L} {loop : TaskLoop L φ} (h : s.Alert) (hloop : ∀ p, loop.pipeEvent = some p → p.Sound) :
    (s.setLoop l loop).Alert :=
  forall_setLoop (P := fun _ loop _ => ∀ p, loop.pipeEvent = some p → p.Sound) h hloop

theorem Alert.stepped (h : s.Alert) (hstep : Stepped body s a s') : s'.Alert := by
  cases hstep with
  | own hnone hmakes hown => exact h
  | other hnone hmakes hother => exact h
  | inner hnone hframes hinner => exact h
  | @finished l hnone hframes hphase => exact h.setLoop (h l)
  | @lock t l f hposting hlock => exact h.setLoop (h l)
  | @wake t l answer hposting =>
      refine h.setLoop fun p hp => ?_
      cases hp
      exact (h.pipe l).write answer
  | @unlock t l hposting => exact h.setLoop (h l)
  | @timeout l hphase => exact h.setLoop (h l)
  | @reported l pipe hpipe hphase hqueued =>
      refine h.setLoop fun p hp => ?_
      cases hp
      exact (h l pipe hpipe).report
  | @onRead l hphase hrest =>
      refine h.setLoop fun p hp => ?_
      obtain ⟨pipe, hpipe, rfl⟩ := Option.map_eq_some_iff.mp hp
      exact (h l pipe hpipe).onRead
  | @dispatched l hphase hrest => exact h.setLoop (h l)
  | @lockFunctions l hphase hlock => exact h.setLoop (h l)
  | @emptied l hphase hrest hempty => exact h.setLoop (h l)
  | @started l f fs hphase hrest hfunctions => exact h.setLoop (h l)
  | @timersDone l hphase hrest => exact h.setLoop (h l)

theorem Attended.setThread {t : ThreadId L} {thread : TaskThread L φ} (h : s.Attended)
    (hwaking : ∀ l, (s.threads t).posting ≠ .waking l) : (s.setThread t thread).Attended := by
  intro l hpast hne
  refine (h l hpast hne).imp_left fun ⟨t', ht'⟩ => ⟨t', ?_⟩
  have ht : t' ≠ t := by
    rintro rfl
    exact hwaking l ht'
  rw [setThread_threads, Function.update_of_ne ht]
  exact ht'

theorem Attended.setLoop {l : L} {loop : TaskLoop L φ} (h : s.Attended)
    (hloop : loop.phase.past = true → loop.functions ≠ [] → s.Waking l ∨ loop.Called) :
    (s.setLoop l loop).Attended := by
  intro l'
  rw [setLoop_loops]
  by_cases hl : l' = l
  · subst hl
    rw [Function.update_self]
    exact hloop
  · rw [Function.update_of_ne hl]
    exact h l'

theorem Attended.called {t : ThreadId L} {l : L} {thread : TaskThread L φ} (h : s.Attended)
    (hposting : (s.threads t).posting = .waking l) (hcalled : (s.loops l).phase.past = true → (s.loops l).Called) :
    (s.setThread t thread).Attended := by
  intro l' hpast hne
  by_cases hl : l' = l
  · subst hl
    exact .inr (hcalled hpast)
  · refine (h l' hpast hne).imp_left fun ⟨t', ht'⟩ => ⟨t', ?_⟩
    have ht : t' ≠ t := by
      rintro rfl
      rw [hposting] at ht'
      exact hl (Posting.waking.inj ht').symm
    rw [setThread_threads, Function.update_of_ne ht]
    exact ht'

theorem Attended.stepped (halert : s.Alert) (h : s.Attended) (htakes : PipeTakes a) (hstep : Stepped body s a s') :
    s'.Attended := by
  cases hstep with
  | own hnone hmakes hown => exact h.setThread fun l => by rw [hnone]; exact nofun
  | other hnone hmakes hother => exact h.setThread fun l => by rw [hnone]; exact nofun
  | inner hnone hframes hinner => exact h.setThread fun l => by rw [hnone]; exact nofun
  | @finished l hnone hframes hphase =>
      refine Attended.setThread (h.setLoop fun hpast => ?_) fun l => ?_
      · dsimp only at hpast
        rw [hphase] at hpast
        cases hpast
      · rw [setLoop_threads, hnone]
        exact nofun
  | @lock t l f hposting hlock =>
      intro l' hpast hne
      by_cases hl : l' = l
      · subst hl
        refine .inl ⟨t, ?_⟩
        rw [setThread_threads, Function.update_self]
      · rw [setThread_loops, setLoop_loops, Function.update_of_ne hl] at hpast hne ⊢
        refine (h l' hpast hne).imp_left fun ⟨t', ht'⟩ => ⟨t', ?_⟩
        have ht : t' ≠ t := by
          rintro rfl
          rw [hposting] at ht'
          cases ht'
        rw [setThread_threads, Function.update_of_ne ht]
        exact ht'
  | @wake t l answer hposting =>
      refine Attended.called (l := l) (h.setLoop fun _ _ => .inl ⟨t, hposting⟩) hposting fun _ => ?_
      rw [setLoop_loops, Function.update_self]
      obtain rfl : answer = .taken true := htakes
      exact ⟨_, rfl, (halert.pipe l).write_queued, Nat.succ_pos _⟩
  | @unlock t l hposting =>
      refine Attended.setThread (h.setLoop (h l)) fun l' => ?_
      rw [setLoop_threads, hposting]
      exact nofun
  | @timeout l hphase => exact h.setLoop fun hpast => by cases hpast
  | @reported l pipe hpipe hphase hqueued => exact h.setLoop fun hpast => by cases hpast
  | @onRead l hphase hrest => exact h.setLoop fun hpast => by cases hpast
  | @dispatched l hphase hrest => exact h.setLoop fun hpast => by cases hpast
  | @lockFunctions l hphase hlock => exact h.setLoop fun hpast => by cases hpast
  | @emptied l hphase hrest hempty => exact h.setLoop fun _ hne => absurd hempty hne
  | @started l f fs hphase hrest hfunctions =>
      refine Attended.setThread (h.setLoop fun hpast => ?_) fun l => ?_
      · dsimp only at hpast
        rw [hphase] at hpast
        cases hpast
      · rw [setLoop_threads, hrest.posting]
        exact nofun
  | @timersDone l hphase hrest => exact h.setLoop fun _ => h l (by rw [hphase]; rfl)

theorem run_attended {actions : List (TaskAction L φ)} (htakes : ∀ a ∈ actions, PipeTakes a)
    (hrun : run (step body) {} actions = some s) : s.Alert ∧ s.Attended := by
  refine run_invariant_of (P := PipeTakes) (I := fun s => s.Alert ∧ s.Attended) (fun s a s' htakes h hstep => ?_)
    ⟨?_, ?_⟩ htakes hrun
  · have hstepped := step_stepped hstep
    exact ⟨h.1.stepped hstepped, h.2.stepped h.1 htakes hstepped⟩
  · exact fun l p hp => by cases hp
  · exact fun l _ hne => absurd rfl hne

/-- No lost wake-up while the pipes take what is written: where a loop is in `epoll_wait` with a function in its
queue, either the thread that pushed it is about to write to the pipe, or `epoll_wait` returns with the event of
the pipe. -/
theorem no_lost_task (actions : List (TaskAction L φ)) (htakes : ∀ a ∈ actions, PipeTakes a)
    (hrun : run (step body) {} actions = some s) (l : L) (hphase : (s.loops l).phase = .waiting)
    (hfunctions : (s.loops l).functions ≠ []) :
    s.Waking l ∨ ∃ s', s.step body (.epollWait l true) = some s' ∧ (s'.loops l).phase = .dispatching true := by
  obtain ⟨halert, hattended⟩ := run_attended htakes hrun
  refine (hattended l (by rw [hphase]; rfl) hfunctions).imp_right fun ⟨pipe, hpipe, hqueued, hbytes⟩ => ?_
  have hstep : s.step body (.epollWait l true) = some (s.setLoop l { s.loops l with
      pipeEvent := some { pipe with fd := pipe.fd.report.2 }, phase := .dispatching pipe.fd.report.1.isSome }) := by
    simp only [step, hpipe, hphase, hqueued, and_self, if_true]
  refine ⟨_, hstep, ?_⟩
  rw [setLoop_loops, Function.update_self, (halert l pipe hpipe).report_some hbytes]

/-- The second of two functions is pushed after the event of the first was reported. -/
theorem no_lost_task_second : ∃ s : TaskSystem Unit Nat, (s.loops ()).functions = [8] ∧
    (s.Waking () ∨
      ∃ s', s.step (fun _ => []) (.epollWait () true) = some s' ∧ (s'.loops ()).phase = .dispatching true) :=
  ⟨_, rfl, no_lost_task
    [.call (.other 0) ⟨(), 7⟩, .lock (.other 0), .wake (.other 0) (.taken true), .unlock (.other 0), .epollWait () true,
      .onRead (), .dispatched (), .lockFunctions (), .next (), .advance (.loop ()), .next (),
      .call (.other 1) ⟨(), 8⟩, .lock (.other 1), .wake (.other 1) (.taken true), .timersDone ()]
    (by simp [PipeTakes]) rfl () rfl (List.cons_ne_nil _ _)⟩

-- a function that is pushed when the pipe is full has nothing to wake the loop for it
example : ∃ s : TaskSystem Unit Nat, run (step fun _ => []) {}
      [.call (.other 0) ⟨(), 7⟩, .lock (.other 0), .wake (.other 0) .refused, .unlock (.other 0)] = some s ∧
    (s.loops ()).phase = .waiting ∧ (s.loops ()).functions = [7] ∧
      (s.step (fun _ => []) (.epollWait () true)).isNone = true :=
  ⟨_, rfl, rfl, rfl, rfl⟩

end TaskSystem
end TmmsServer
