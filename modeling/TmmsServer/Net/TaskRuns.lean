import Mathlib.Data.List.Infix
import TmmsServer.Net.TaskQueue

/-!
# Every function once and in order

Over all interleavings: `lock_` has one holder, what is pushed to a loop is run in the
order in which it was pushed, once, and what a thread gives to a loop is pushed in the
order of its calls.
-/
namespace TmmsServer
open Lib.Runs

namespace TaskSystem
variable {L φ : Type} [DecidableEq L]

section Updates
variable (s : TaskSystem L φ) (l : L) (t : ThreadId L) (loop : TaskLoop L φ) (thread : TaskThread L φ)

@[simp] theorem setLoop_loops : (s.setLoop l loop).loops = Function.update s.loops l loop := rfl

@[simp] theorem setLoop_threads : (s.setLoop l loop).threads = s.threads := rfl

@[simp] theorem setThread_threads : (s.setThread t thread).threads = Function.update s.threads t thread := rfl

@[simp] theorem setThread_loops : (s.setThread t thread).loops = s.loops := rfl

end Updates

/-- The call is the next of the running function, or code that is no function makes it; `frames` are
the calls left. -/
def Makes (s : TaskSystem L φ) (a : TaskAction L φ) (t : ThreadId L) (call : TaskCall L φ)
    (frames : List (List (TaskCall L φ))) : Prop :=
  (a = .call t call ∧ s.mayCall t = true ∧ (s.threads t).frames = [] ∧ frames = []) ∨
    (a = .advance t ∧ ∃ calls outer, (s.threads t).frames = (call :: calls) :: outer ∧ frames = calls :: outer)

variable (body : φ → List (TaskCall L φ))

/-- What a step does to the system. -/
inductive Stepped (s : TaskSystem L φ) : TaskAction L φ → TaskSystem L φ → Prop
  | own {a t call frames} (hnone : (s.threads t).posting = .none)
      (hmakes : s.Makes a t call frames) (hown : t = .loop call.loop) :
      Stepped s a (s.setThread t
        { posting := .none, frames := body call.func :: frames, calls := (s.threads t).calls })
  | other {a t call frames} (hnone : (s.threads t).posting = .none)
      (hmakes : s.Makes a t call frames) (hother : t ≠ .loop call.loop) :
      Stepped s a (s.setThread t
        { posting := .locking call, frames, calls := (s.threads t).calls ++ [call] })
  | inner {t outer} (hnone : (s.threads t).posting = .none) (hframes : (s.threads t).frames = [] :: outer)
      (hinner : s.inFunctions t = none ∨ outer ≠ []) :
      Stepped s (.advance t) (s.setThread t { s.threads t with frames := outer })
  | finished {l} (hnone : (s.threads (.loop l)).posting = .none) (hframes : (s.threads (.loop l)).frames = [[]])
      (hphase : (s.loops l).phase = .running) :
      Stepped s (.advance (.loop l)) ((s.setLoop l { s.loops l with functions := (s.loops l).functions.tail }).setThread
        (.loop l) { s.threads (.loop l) with frames := [] })
  | lock {t l f} (hposting : (s.threads t).posting = .locking ⟨l, f⟩) (hlock : (s.loops l).lock = none) :
      Stepped s (.lock t) ((s.setLoop l { s.loops l with
          lock := some t, functions := (s.loops l).functions ++ [f],
          posted := (s.loops l).posted ++ [(t, f)] }).setThread t
        { s.threads t with posting := .waking l })
  | wake {t l answer} (hposting : (s.threads t).posting = .waking l) :
      Stepped s (.wake t answer)
        ((s.setLoop l
          { s.loops l with pipeEvent := some (((s.loops l).pipeEvent.getD .added).write answer) }).setThread t
        { s.threads t with posting := .unlocking l })
  | unlock {t l} (hposting : (s.threads t).posting = .unlocking l) :
      Stepped s (.unlock t)
        ((s.setLoop l { s.loops l with lock := none }).setThread t { s.threads t with posting := .none })
  | timeout {l} (hphase : (s.loops l).phase = .waiting) :
      Stepped s (.epollWait l false) (s.setLoop l { s.loops l with phase := .dispatching false })
  | reported {l pipe} (hpipe : (s.loops l).pipeEvent = some pipe) (hphase : (s.loops l).phase = .waiting)
      (hqueued : pipe.fd.queued = true) :
      Stepped s (.epollWait l true) (s.setLoop l { s.loops l with
        pipeEvent := some { pipe with fd := pipe.fd.report.2 }, phase := .dispatching pipe.fd.report.1.isSome })
  | onRead {l} (hphase : (s.loops l).phase = .dispatching true) (hrest : (s.threads (.loop l)).Resting) :
      Stepped s (.onRead l) (s.setLoop l
        { s.loops l with pipeEvent := (s.loops l).pipeEvent.map (·.onRead), phase := .dispatching false })
  | dispatched {l} (hphase : (s.loops l).phase = .dispatching false) (hrest : (s.threads (.loop l)).Resting) :
      Stepped s (.dispatched l) (s.setLoop l { s.loops l with phase := .locking })
  | lockFunctions {l} (hphase : (s.loops l).phase = .locking) (hlock : (s.loops l).lock = none) :
      Stepped s (.lockFunctions l) (s.setLoop l { s.loops l with phase := .running, lock := some (.loop l) })
  | emptied {l} (hphase : (s.loops l).phase = .running) (hrest : (s.threads (.loop l)).Resting)
      (hempty : (s.loops l).functions = []) :
      Stepped s (.next l) (s.setLoop l { s.loops l with phase := .timers, lock := none })
  | started {l f fs} (hphase : (s.loops l).phase = .running) (hrest : (s.threads (.loop l)).Resting)
      (hfunctions : (s.loops l).functions = f :: fs) :
      Stepped s (.next l) ((s.setLoop l { s.loops l with started := (s.loops l).started ++ [f] }).setThread (.loop l)
        { s.threads (.loop l) with frames := [body f] })
  | timersDone {l} (hphase : (s.loops l).phase = .timers) (hrest : (s.threads (.loop l)).Resting) :
      Stepped s (.timersDone l) (s.setLoop l { s.loops l with phase := .waiting })

variable {body} {s s' : TaskSystem L φ} {a : TaskAction L φ}

theorem stepped_call {t : ThreadId L} {call : TaskCall L φ} {thread : TaskThread L φ}
    (hnone : (s.threads t).posting = .none) (hmakes : s.Makes a t call thread.frames)
    (hposting : thread.posting = (s.threads t).posting) (hcalls : thread.calls = (s.threads t).calls) :
    Stepped body s a (s.setThread t (runInLoop body t thread call)) := by
  unfold runInLoop
  split
  next hown =>
    rw [hposting, hnone, hcalls]
    exact .own hnone hmakes hown
  next hother =>
    rw [hcalls]
    exact .other hnone hmakes hother

omit [DecidableEq L] in
theorem inFunctions_iff {t : ThreadId L} {l : L} :
    s.inFunctions t = some l ↔ t = .loop l ∧ (s.loops l).phase = .running := by
  cases t with
  | loop l' =>
      simp only [inFunctions, Option.ite_none_right_eq_some, Option.some.injEq, ThreadId.loop.injEq]
      constructor
      · rintro ⟨hphase, rfl⟩
        exact ⟨rfl, hphase⟩
      · rintro ⟨rfl, hphase⟩
        exact ⟨hphase, rfl⟩
  | other n => simp [inFunctions]

theorem stepped_returns {t : ThreadId L} {outer : List (List (TaskCall L φ))}
    (hnone : (s.threads t).posting = .none) (hframes : (s.threads t).frames = [] :: outer) :
    Stepped body s (.advance t) (s.returns t outer) := by
  unfold returns
  dsimp only
  split
  next l hl =>
    obtain ⟨rfl, hphase⟩ := inFunctions_iff.mp hl
    split
    next hempty =>
      obtain rfl := List.isEmpty_iff.mp hempty
      exact .finished hnone hframes hphase
    next hne => exact .inner hnone hframes (.inr fun h => hne (List.isEmpty_iff.mpr h))
  next hl => exact .inner hnone hframes (.inl hl)

/-- Each case of `step`. -/
theorem step_stepped (h : s.step body a = some s') : Stepped body s a s' := by
  cases a with
  | call t call =>
      simp only [step, Option.ite_none_right_eq_some, Option.some.injEq] at h
      obtain ⟨⟨hmay, hrest⟩, rfl⟩ := h
      exact stepped_call hrest.posting (.inl ⟨rfl, hmay, hrest.frames, hrest.frames⟩) rfl rfl
  | advance t =>
      simp only [step] at h
      split at h
      next call calls outer hnone hframes =>
        cases h
        exact stepped_call hnone (.inr ⟨rfl, calls, outer, hframes, rfl⟩) rfl rfl
      next outer hnone hframes =>
        cases h
        exact stepped_returns hnone hframes
      · cases h
  | lock t =>
      simp only [step] at h
      split at h
      next l f hposting =>
        obtain ⟨hlock, h⟩ := Option.ite_none_right_eq_some.mp h
        cases h
        exact .lock hposting hlock
      · cases h
  | wake t answer =>
      simp only [step] at h
      split at h
      next l hposting =>
        cases h
        exact .wake hposting
      · cases h
  | unlock t =>
      simp only [step] at h
      split at h
      next l hposting =>
        cases h
        exact .unlock hposting
      · cases h
  | epollWait l pipe =>
      cases pipe with
      | false =>
          obtain ⟨hphase, h⟩ := Option.ite_none_right_eq_some.mp h
          cases h
          exact .timeout hphase
      | true =>
          simp only [step] at h
          split at h
          next pipe hpipe =>
            obtain ⟨⟨hphase, hqueued⟩, h⟩ := Option.ite_none_right_eq_some.mp h
            cases h
            exact .reported hpipe hphase hqueued
          · cases h
  | onRead l =>
      obtain ⟨⟨hphase, hrest⟩, h⟩ := Option.ite_none_right_eq_some.mp h
      cases h
      exact .onRead hphase hrest
  | dispatched l =>
      obtain ⟨⟨hphase, hrest⟩, h⟩ := Option.ite_none_right_eq_some.mp h
      cases h
      exact .dispatched hphase hrest
  | lockFunctions l =>
      obtain ⟨⟨hphase, hlock⟩, h⟩ := Option.ite_none_right_eq_some.mp h
      cases h
      exact .lockFunctions hphase hlock
  | next l =>
      obtain ⟨⟨hphase, hrest⟩, h⟩ := Option.ite_none_right_eq_some.mp h
      split at h
      next hempty =>
        cases h
        exact .emptied hphase hrest hempty
      next f fs hfunctions =>
        cases h
        exact .started hphase hrest hfunctions
  | timersDone l =>
      obtain ⟨⟨hphase, hrest⟩, h⟩ := Option.ite_none_right_eq_some.mp h
      cases h
      exact .timersDone hphase hrest

/-! ## Who has a lock -/

/-- The thread has the lock, in `RunInLoop` or in `RunFunctions`. -/
def Holds (s : TaskSystem L φ) (t : ThreadId L) (l : L) : Prop :=
  (s.threads t).posting.holds l = true ∨ t = .loop l ∧ (s.loops l).phase = .running

/-- `loop` is where it runs nothing. -/
def Settled (s : TaskSystem L φ) (l : L) : Prop := (s.loops l).phase = .waiting ∨ (s.loops l).phase = .locking

/-- A lock has the holder it names, and a thread rests where its loop runs nothing. -/
structure Orderly (s : TaskSystem L φ) : Prop where
  holder : ∀ l t, (s.loops l).lock = some t ↔ s.Holds t l
  foreign : ∀ t l, (s.threads t).posting.target = some l → t ≠ .loop l
  settled : ∀ l, s.Settled l → (s.threads (.loop l)).Resting

theorem Orderly.init : ({} : TaskSystem L φ).Orderly where
  holder l t := by
    constructor
    · intro h
      cases h
    · rintro (h | ⟨-, h⟩) <;> cases h
  foreign t l h := by cases h
  settled l _ := ⟨rfl, rfl⟩

section Orderly
variable {t : ThreadId L} {l : L} {thread : TaskThread L φ} {loop : TaskLoop L φ}

/-- A thread changes, and what locks it has does not. -/
theorem Orderly.setThread (h : s.Orderly)
    (hholds : ∀ l, thread.posting.holds l = (s.threads t).posting.holds l)
    (hforeign : ∀ l, thread.posting.target = some l → t ≠ .loop l)
    (hsettled : ∀ l, t = .loop l → s.Settled l → thread.Resting) : (s.setThread t thread).Orderly where
  holder l t' := by
    rw [setThread_loops, h.holder l t', Holds, Holds, setThread_loops, setThread_threads]
    by_cases ht : t' = t
    · subst ht
      rw [Function.update_self, hholds]
    · rw [Function.update_of_ne ht]
  foreign t' l htarget := by
    by_cases ht : t' = t
    · subst ht
      rw [setThread_threads, Function.update_self] at htarget
      exact hforeign l htarget
    · rw [setThread_threads, Function.update_of_ne ht] at htarget
      exact h.foreign t' l htarget
  settled l hl := by
    by_cases ht : .loop l = t
    · subst ht
      rw [setThread_threads, Function.update_self]
      exact hsettled l rfl hl
    · rw [setThread_threads, Function.update_of_ne ht]
      exact h.settled l hl

/-- A loop changes, and neither its lock nor that it is in `RunFunctions` does. -/
theorem Orderly.setLoop (h : s.Orderly) (hlock : loop.lock = (s.loops l).lock)
    (hrunning : loop.phase = .running ↔ (s.loops l).phase = .running)
    (hsettled : loop.phase = .waiting ∨ loop.phase = .locking → (s.threads (.loop l)).Resting) :
    (s.setLoop l loop).Orderly where
  holder l' t := by
    by_cases hl : l' = l
    · subst hl
      rw [setLoop_loops, Function.update_self, hlock, h.holder l' t, Holds, Holds, setLoop_loops,
        Function.update_self, hrunning]
      rfl
    · rw [setLoop_loops, Function.update_of_ne hl, h.holder l' t, Holds, Holds, setLoop_loops,
        Function.update_of_ne hl]
      rfl
  foreign := h.foreign
  settled l' hl' := by
    by_cases hl : l' = l
    · subst hl
      rw [Settled, setLoop_loops, Function.update_self] at hl'
      exact hsettled hl'
    · rw [Settled, setLoop_loops, Function.update_of_ne hl] at hl'
      exact h.settled l' hl'

/-- A lock is taken or given back: its loop changes, and the thread that does it. -/
theorem Orderly.relock (h : s.Orderly)
    (hlock : ∀ t', loop.lock = some t' ↔ ((s.setLoop l loop).setThread t thread).Holds t' l)
    (hholds : ∀ l', l' ≠ l → thread.posting.holds l' = (s.threads t).posting.holds l')
    (hforeign : ∀ l', thread.posting.target = some l' → t ≠ .loop l')
    (hloop : loop.phase = .waiting ∨ loop.phase = .locking →
      (((s.setLoop l loop).setThread t thread).threads (.loop l)).Resting)
    (hthread : ∀ l', l' ≠ l → t = .loop l' → s.Settled l' → thread.Resting) :
    ((s.setLoop l loop).setThread t thread).Orderly where
  holder l' t' := by
    by_cases hl : l' = l
    · subst hl
      rw [← hlock, setThread_loops, setLoop_loops, Function.update_self]
    · rw [setThread_loops, setLoop_loops, Function.update_of_ne hl, h.holder l' t', Holds, Holds,
        setThread_loops, setLoop_loops, Function.update_of_ne hl, setThread_threads]
      by_cases ht : t' = t
      · subst ht
        rw [Function.update_self, hholds l' hl]
      · rw [Function.update_of_ne ht]
        rfl
  foreign t' l' htarget := by
    by_cases ht : t' = t
    · subst ht
      rw [setThread_threads, Function.update_self] at htarget
      exact hforeign l' htarget
    · rw [setThread_threads, Function.update_of_ne ht] at htarget
      exact h.foreign t' l' htarget
  settled l' hsettled := by
    rw [Settled, setThread_loops, setLoop_loops] at hsettled
    by_cases hl : l' = l
    · subst hl
      rw [Function.update_self] at hsettled
      exact hloop hsettled
    · rw [Function.update_of_ne hl] at hsettled
      rw [setThread_threads]
      by_cases ht : .loop l' = t
      · subst ht
        rw [Function.update_self]
        exact hthread l' hl rfl hsettled
      · rw [Function.update_of_ne ht]
        exact h.settled l' hsettled

theorem Orderly.makes_not_settled (h : s.Orderly) {call : TaskCall L φ} {frames : List (List (TaskCall L φ))}
    (hmakes : s.Makes a t call frames) (ht : t = .loop l) : ¬ s.Settled l := by
  subst ht
  intro hsettled
  rcases hmakes with ⟨-, hmay, -, -⟩ | ⟨-, calls, outer, hframes, -⟩
  · simp only [mayCall, decide_eq_true_eq] at hmay
    rcases hsettled with hphase | hphase <;> simp [hphase] at hmay
  · rw [(h.settled l hsettled).frames] at hframes
    cases hframes

theorem Orderly.not_holds (h : s.Orderly) (hlock : (s.loops l).lock = none) : ¬ s.Holds t l := by
  intro hholds
  rw [(h.holder l t).mpr hholds] at hlock
  cases hlock

theorem Orderly.holds_unique (h : s.Orderly) {t' : ThreadId L} (ht : s.Holds t l) (ht' : s.Holds t' l) :
    t' = t := by
  have hsome := (h.holder l t).mpr ht
  rw [(h.holder l t').mpr ht'] at hsome
  exact Option.some.inj hsome

omit [DecidableEq L] in
theorem not_resting {frame : List (TaskCall L φ)} {outer : List (List (TaskCall L φ))}
    (hframes : (s.threads t).frames = frame :: outer) : ¬ (s.threads t).Resting := by
  intro hrest
  rw [hrest.frames] at hframes
  cases hframes

theorem setLoop_eq : s.setLoop l loop = (s.setLoop l loop).setThread t (s.threads t) := by
  simp [setLoop, TaskSystem.setThread]

end Orderly

section Steps
variable {t : ThreadId L} {l : L}

theorem Orderly.lock {f : φ} (h : s.Orderly)
    (hposting : (s.threads t).posting = .locking ⟨l, f⟩) (hlock : (s.loops l).lock = none) :
    ((s.setLoop l { s.loops l with
        lock := some t, functions := (s.loops l).functions ++ [f],
        posted := (s.loops l).posted ++ [(t, f)] }).setThread t
      { s.threads t with posting := .waking l }).Orderly := by
  have hforeign : t ≠ .loop l := h.foreign t l (by rw [hposting]; rfl)
  refine h.relock (fun t' => ?_) (fun l' hl => ?_) (fun l' hl => ?_) (fun hsettled => ?_) fun l' _ ht hsettled => ?_
  · by_cases ht : t' = t
    · subst ht
      simp [Holds, Posting.holds]
    · have hnot := h.not_holds (t := t') hlock
      simp only [Holds, not_or, not_and] at hnot
      simp only [Holds, setThread_threads, setThread_loops, setLoop_threads, setLoop_loops, Function.update_of_ne ht,
        Function.update_self, hnot.1, Option.some.injEq, Ne.symm ht, false_iff, not_or, not_and]
      exact ⟨Bool.false_ne_true, hnot.2⟩
  · simp [Posting.holds, hposting, Ne.symm hl]
  · cases hl
    exact hforeign
  · rw [setThread_threads, Function.update_of_ne hforeign.symm]
    exact h.settled l hsettled
  · subst ht
    have hnone := (h.settled l' hsettled).posting
    rw [hposting] at hnone
    cases hnone

theorem Orderly.unlock (h : s.Orderly) (hposting : (s.threads t).posting = .unlocking l) :
    ((s.setLoop l { s.loops l with lock := none }).setThread t { s.threads t with posting := .none }).Orderly := by
  have hforeign : t ≠ .loop l := h.foreign t l (by rw [hposting]; rfl)
  have hholds : s.Holds t l := .inl (by rw [hposting]; exact decide_eq_true rfl)
  refine h.relock (fun t' => ?_) (fun l' hl => ?_) (fun l' hl => ?_) (fun hsettled => ?_) fun l' _ ht hsettled => ?_
  · by_cases ht : t' = t
    · subst ht
      simp [Holds, Posting.holds, hforeign]
    · have hnot : ¬ s.Holds t' l := fun hholds' => ht (h.holds_unique hholds hholds')
      simp only [Holds, not_or, not_and] at hnot
      simp [Holds, Function.update_of_ne ht, hnot.1]
      exact hnot.2
  · simp [Posting.holds, hposting, Ne.symm hl]
  · cases hl
  · rw [setThread_threads, Function.update_of_ne hforeign.symm]
    exact h.settled l hsettled
  · subst ht
    have hnone := (h.settled l' hsettled).posting
    rw [hposting] at hnone
    cases hnone

theorem Orderly.lockFunctions (h : s.Orderly)
    (hlock : (s.loops l).lock = none) :
    (s.setLoop l { s.loops l with phase := .running, lock := some (.loop l) }).Orderly := by
  have hnot : ∀ t, ¬ s.Holds t l := fun t => h.not_holds hlock
  simp only [Holds, not_or, not_and] at hnot
  rw [setLoop_eq (t := .loop l)]
  refine h.relock (fun t' => ?_) (fun l' hl => rfl) (fun l' => h.foreign _ l') (fun hsettled => ?_)
    fun l' _ ht => ?_
  · simp [Holds, hnot t', eq_comm]
  · rcases hsettled with hphase | hphase <;> cases hphase
  · exact ht ▸ h.settled l'

theorem Orderly.emptied (h : s.Orderly) (hphase : (s.loops l).phase = .running) :
    (s.setLoop l { s.loops l with phase := .timers, lock := none }).Orderly := by
  have hholds : s.Holds (.loop l) l := .inr ⟨rfl, hphase⟩
  rw [setLoop_eq (t := .loop l)]
  refine h.relock (fun t' => ?_) (fun l' hl => rfl) (fun l' => h.foreign _ l') (fun hsettled => ?_)
    fun l' _ ht => ?_
  · have hposting : (s.threads t').posting.holds l = false := by
      by_contra hnot
      have hhere := eq_true_of_ne_false hnot
      exact h.foreign t' l (Posting.target_of_holds hhere) (h.holds_unique hholds (.inl hhere))
    simp [Holds, hposting]
  · rcases hsettled with hphase | hphase <;> cases hphase
  · exact ht ▸ h.settled l'

end Steps

theorem Orderly.stepped (h : s.Orderly) (hstep : Stepped body s a s') : s'.Orderly := by
  cases hstep with
  | own hnone hmakes hown =>
      refine h.setThread (fun l => by rw [hnone]) (fun l hl => by cases hl) fun l ht hsettled => ?_
      exact absurd hsettled (h.makes_not_settled hmakes ht)
  | other hnone hmakes hother =>
      refine h.setThread (fun l => by rw [hnone]; rfl) (fun l hl => ?_) fun l ht hsettled => ?_
      · cases hl
        exact hother
      · exact absurd hsettled (h.makes_not_settled hmakes ht)
  | @inner t outer hnone hframes hinner =>
      refine h.setThread (fun l => rfl) (h.foreign t) fun l ht hsettled => ?_
      subst ht
      exact absurd (h.settled l hsettled) (not_resting hframes)
  | @finished l hnone hframes hphase =>
      refine Orderly.setThread (h.setLoop rfl Iff.rfl (h.settled l)) (fun l => rfl) (h.foreign (.loop l)) ?_
      intro l' ht hsettled
      cases ht
      rw [Settled, setLoop_loops, Function.update_self] at hsettled
      exact absurd (h.settled l hsettled) (not_resting hframes)
  | lock hposting hlock => exact h.lock hposting hlock
  | @wake t l answer hposting =>
      have hforeign : t ≠ .loop l := h.foreign t l (by rw [hposting]; rfl)
      refine Orderly.setThread (h.setLoop rfl Iff.rfl (h.settled l)) (fun l' => ?_) (fun l' hl => ?_) ?_
      · rw [setLoop_threads, hposting]
        rfl
      · cases hl
        exact hforeign
      · intro l' ht hsettled
        subst ht
        have hl : l' ≠ l := by
          rintro rfl
          exact hforeign rfl
        rw [Settled, setLoop_loops, Function.update_of_ne hl] at hsettled
        have hnone := (h.settled l' hsettled).posting
        rw [hposting] at hnone
        cases hnone
  | unlock hposting => exact h.unlock hposting
  | timeout hphase =>
      refine h.setLoop rfl ?_ ?_
      · simp [hphase]
      · rintro (hphase | hphase) <;> cases hphase
  | reported hpipe hphase hqueued =>
      refine h.setLoop rfl ?_ ?_
      · simp [hphase]
      · rintro (hphase | hphase) <;> cases hphase
  | onRead hphase hrest =>
      refine h.setLoop rfl ?_ ?_
      · simp [hphase]
      · rintro (hphase | hphase) <;> cases hphase
  | dispatched hphase hrest =>
      refine h.setLoop rfl ?_ fun _ => hrest
      simp [hphase]
  | lockFunctions hphase hlock => exact h.lockFunctions hlock
  | emptied hphase hrest hempty => exact h.emptied hphase
  | @started l f fs hphase hrest hfunctions =>
      refine Orderly.setThread (h.setLoop rfl Iff.rfl (h.settled l)) (fun l' => rfl) (h.foreign (.loop l)) ?_
      intro l' ht hsettled
      cases ht
      rw [Settled, setLoop_loops, Function.update_self] at hsettled
      dsimp only at hsettled
      rw [hphase] at hsettled
      rcases hsettled with hphase | hphase <;> cases hphase
  | timersDone hphase hrest =>
      refine h.setLoop rfl ?_ fun _ => hrest
      simp [hphase]

theorem run_orderly {actions : List (TaskAction L φ)} (h : s.Orderly)
    (hrun : run (step body) s actions = some s') : s'.Orderly :=
  run_invariant (I := Orderly) (fun _ _ _ h hstep => h.stepped (step_stepped hstep)) h hrun

theorem forall_setThread {P : L → TaskLoop L φ → TaskThread L φ → Prop} {t : ThreadId L} {thread : TaskThread L φ}
    (h : ∀ l, P l (s.loops l) (s.threads (.loop l))) (hthread : ∀ l, t = .loop l → P l (s.loops l) thread) (l : L) :
    P l ((s.setThread t thread).loops l) ((s.setThread t thread).threads (.loop l)) := by
  rw [setThread_loops, setThread_threads]
  by_cases ht : .loop l = t
  · subst ht
    rw [Function.update_self]
    exact hthread l rfl
  · rw [Function.update_of_ne ht]
    exact h l

theorem forall_setLoop {P : L → TaskLoop L φ → TaskThread L φ → Prop} {l : L} {loop : TaskLoop L φ}
    (h : ∀ l, P l (s.loops l) (s.threads (.loop l))) (hloop : P l loop (s.threads (.loop l))) (l' : L) :
    P l' ((s.setLoop l loop).loops l') ((s.setLoop l loop).threads (.loop l')) := by
  rw [setLoop_loops, setLoop_threads]
  by_cases hl : l' = l
  · subst hl
    rw [Function.update_self]
    exact hloop
  · rw [Function.update_of_ne hl]
    exact h l'

theorem forall_setBoth {P : L → TaskLoop L φ → TaskThread L φ → Prop} {l : L} {loop : TaskLoop L φ}
    {thread : TaskThread L φ} (h : ∀ l, P l (s.loops l) (s.threads (.loop l))) (hboth : P l loop thread) (l' : L) :
    P l' (((s.setLoop l loop).setThread (.loop l) thread).loops l')
      (((s.setLoop l loop).setThread (.loop l) thread).threads (.loop l')) := by
  rw [setThread_loops, setThread_threads, setLoop_loops]
  by_cases hl : l' = l
  · subst hl
    rw [Function.update_self, Function.update_self]
    exact hboth
  · rw [Function.update_of_ne hl, Function.update_of_ne (fun heq => hl (ThreadId.loop.inj heq))]
    exact h l'

end TaskSystem

namespace TaskLoop
variable {L φ : Type}

/-- `RunFunctions` has called a function that has not returned. -/
def Busy (loop : TaskLoop L φ) (thread : TaskThread L φ) : Prop :=
  loop.phase = .running ∧ thread.frames ≠ []

/-- What was pushed is what was run and what is in the queue; the front of the queue may be running. -/
structure InOrder (loop : TaskLoop L φ) (thread : TaskThread L φ) : Prop where
  idle : ¬ loop.Busy thread → loop.posted.map Prod.snd = loop.started ++ loop.functions
  busy : loop.Busy thread → ∃ f rest, loop.functions = f :: rest ∧ loop.started.getLast? = some f ∧
    loop.posted.map Prod.snd = loop.started ++ rest

variable {loop loop' : TaskLoop L φ} {thread thread' : TaskThread L φ}

theorem InOrder.congr (h : loop.InOrder thread) (hphase : loop'.phase = .running ↔ loop.phase = .running)
    (hframes : loop.phase = .running → (thread'.frames = [] ↔ thread.frames = []))
    (hfunctions : loop'.functions = loop.functions) (hposted : loop'.posted = loop.posted)
    (hstarted : loop'.started = loop.started) : loop'.InOrder thread' := by
  have hbusy : loop'.Busy thread' ↔ loop.Busy thread := by
    constructor
    · rintro ⟨hrunning, hne⟩
      have hrunning := hphase.mp hrunning
      exact ⟨hrunning, fun hnil => hne ((hframes hrunning).mpr hnil)⟩
    · rintro ⟨hrunning, hne⟩
      exact ⟨hphase.mpr hrunning, fun hnil => hne ((hframes hrunning).mp hnil)⟩
  constructor
  · intro hidle
    rw [hposted, hstarted, hfunctions]
    exact h.idle fun hb => hidle (hbusy.mpr hb)
  · intro hb
    rw [hposted, hstarted, hfunctions]
    exact h.busy (hbusy.mp hb)

theorem InOrder.push (h : loop.InOrder thread) (t : ThreadId L) (f : φ) (lock : Option (ThreadId L)) :
    InOrder { loop with lock, functions := loop.functions ++ [f], posted := loop.posted ++ [(t, f)] } thread := by
  constructor
  · intro hidle
    dsimp only
    rw [List.map_append, h.idle hidle, List.append_assoc]
    rfl
  · intro hbusy
    obtain ⟨g, rest, hfunctions, hlast, hposted⟩ := h.busy hbusy
    refine ⟨g, rest ++ [f], ?_, hlast, ?_⟩
    · dsimp only
      rw [hfunctions, List.cons_append]
    · dsimp only
      rw [List.map_append, hposted, List.append_assoc]
      rfl

theorem InOrder.pop (h : loop.InOrder thread) (hbusy : loop.Busy thread) (hframes : thread'.frames = []) :
    InOrder { loop with functions := loop.functions.tail } thread' := by
  obtain ⟨f, rest, hfunctions, -, hposted⟩ := h.busy hbusy
  constructor
  · intro _
    dsimp only
    rw [hposted, hfunctions, List.tail_cons]
  · intro hb
    exact absurd hframes hb.2

theorem InOrder.start (h : loop.InOrder thread) {f : φ} {fs : List φ} (hframes : thread.frames = [])
    (hphase : loop.phase = .running) (hfunctions : loop.functions = f :: fs) (hbusy : thread'.frames ≠ []) :
    InOrder { loop with started := loop.started ++ [f] } thread' := by
  have hidle : ¬ loop.Busy thread := fun hb => hb.2 hframes
  have hposted := h.idle hidle
  constructor
  · intro hnot
    exact absurd ⟨hphase, hbusy⟩ hnot
  · intro _
    refine ⟨f, fs, hfunctions, List.getLast?_concat, ?_⟩
    dsimp only
    rw [hposted, hfunctions, List.append_assoc]
    rfl

end TaskLoop

namespace TaskSystem
variable {L φ : Type} [DecidableEq L] {body : φ → List (TaskCall L φ)}
  {s s' : TaskSystem L φ} {a : TaskAction L φ}

def InOrder (s : TaskSystem L φ) : Prop := ∀ l, (s.loops l).InOrder (s.threads (.loop l))

theorem InOrder.setThread {t : ThreadId L} {thread : TaskThread L φ} (h : s.InOrder)
    (hframes : thread.frames = (s.threads t).frames) : (s.setThread t thread).InOrder := by
  refine forall_setThread (P := fun _ => TaskLoop.InOrder) h fun l ht => ?_
  subst ht
  exact (h l).congr Iff.rfl (fun _ => by rw [hframes]) rfl rfl rfl

theorem InOrder.setLoop {l : L} {loop : TaskLoop L φ} (h : s.InOrder)
    (hloop : loop.InOrder (s.threads (.loop l))) : (s.setLoop l loop).InOrder :=
  forall_setLoop (P := fun _ => TaskLoop.InOrder) h hloop

omit [DecidableEq L] in
theorem Makes.busy {t : ThreadId L} {l : L} {call : TaskCall L φ} {frames : List (List (TaskCall L φ))}
    (hmakes : s.Makes a t call frames) (ht : t = .loop l) (hphase : (s.loops l).phase = .running) :
    (s.threads t).frames ≠ [] ∧ frames ≠ [] := by
  subst ht
  rcases hmakes with ⟨-, hmay, -, -⟩ | ⟨-, calls, outer, hframes, rfl⟩
  · simp [mayCall, hphase] at hmay
  · rw [hframes]
    exact ⟨List.cons_ne_nil _ _, List.cons_ne_nil _ _⟩

theorem InOrder.stepped (h : s.InOrder) (horderly : s.Orderly) (hstep : Stepped body s a s') :
    s'.InOrder := by
  cases hstep with
  | own hnone hmakes hown =>
      refine forall_setThread (P := fun _ => TaskLoop.InOrder) h fun l ht => ?_
      subst ht
      refine (h l).congr Iff.rfl (fun hphase => ?_) rfl rfl rfl
      exact iff_of_false (List.cons_ne_nil _ _) (hmakes.busy rfl hphase).1
  | other hnone hmakes hother =>
      refine forall_setThread (P := fun _ => TaskLoop.InOrder) h fun l ht => ?_
      subst ht
      refine (h l).congr Iff.rfl (fun hphase => ?_) rfl rfl rfl
      exact iff_of_false (hmakes.busy rfl hphase).2 (hmakes.busy rfl hphase).1
  | @inner t outer hnone hframes hinner =>
      refine forall_setThread (P := fun _ => TaskLoop.InOrder) h fun l ht => ?_
      subst ht
      refine (h l).congr Iff.rfl (fun hphase => ?_) rfl rfl rfl
      have hne : outer ≠ [] := by
        refine hinner.resolve_left fun hnot => ?_
        rw [inFunctions_iff.mpr ⟨rfl, hphase⟩] at hnot
        cases hnot
      exact iff_of_false hne (by rw [hframes]; exact List.cons_ne_nil _ _)
  | @finished l hnone hframes hphase =>
      refine forall_setBoth (P := fun _ => TaskLoop.InOrder) h ((h l).pop ⟨hphase, ?_⟩ rfl)
      rw [hframes]
      exact List.cons_ne_nil _ _
  | @lock t l f hposting hlock =>
      exact InOrder.setThread (h.setLoop ((h l).push t f (some t))) rfl
  | @wake t l answer hposting =>
      exact InOrder.setThread (h.setLoop ((h l).congr Iff.rfl (fun _ => Iff.rfl) rfl rfl rfl)) rfl
  | @unlock t l hposting =>
      exact InOrder.setThread (h.setLoop ((h l).congr Iff.rfl (fun _ => Iff.rfl) rfl rfl rfl)) rfl
  | @timeout l hphase =>
      exact h.setLoop ((h l).congr (by simp [hphase]) (fun _ => Iff.rfl) rfl rfl rfl)
  | @reported l pipe hpipe hphase hqueued =>
      exact h.setLoop ((h l).congr (by simp [hphase]) (fun _ => Iff.rfl) rfl rfl rfl)
  | @onRead l hphase hrest =>
      exact h.setLoop ((h l).congr (by simp [hphase]) (fun _ => Iff.rfl) rfl rfl rfl)
  | @dispatched l hphase hrest =>
      exact h.setLoop ((h l).congr (by simp [hphase]) (fun _ => Iff.rfl) rfl rfl rfl)
  | @lockFunctions l hphase hlock =>
      refine h.setLoop ⟨fun _ => (h l).idle fun hbusy => ?_, fun hbusy => ?_⟩
      · have hrunning := hbusy.1
        rw [hphase] at hrunning
        cases hrunning
      · exact absurd (horderly.settled l (.inr hphase)).frames hbusy.2
  | @emptied l hphase hrest hempty =>
      refine h.setLoop ⟨fun _ => ?_, fun hbusy => ?_⟩
      · exact (h l).idle fun hbusy => hbusy.2 hrest.frames
      · cases hbusy.1
  | @started l f fs hphase hrest hfunctions =>
      refine forall_setBoth (P := fun _ => TaskLoop.InOrder) h ?_
      exact (h l).start hrest.frames hphase hfunctions (List.cons_ne_nil _ _)
  | @timersDone l hphase hrest =>
      exact h.setLoop ((h l).congr (by simp [hphase]) (fun _ => Iff.rfl) rfl rfl rfl)

/-- The function, if the call is for the loop. -/
def funcFor (l : L) (call : TaskCall L φ) : Option φ := if call.loop = l then some call.func else none

/-- What a thread gave to a loop, in the order of its calls. -/
def calledFor (s : TaskSystem L φ) (t : ThreadId L) (l : L) : List φ := (s.threads t).calls.filterMap (funcFor l)

/-- What it pushed to the queue of the loop. -/
def postedBy (s : TaskSystem L φ) (t : ThreadId L) (l : L) : List φ :=
  (s.loops l).posted.filterMap fun p => if p.1 = t then some p.2 else none

/-- What it is about to push. -/
def pendingFor (l : L) : Posting L φ → List φ
  | .locking call => (funcFor l call).toList
  | .none | .waking _ | .unlocking _ => []

/-- Whatever a thread gave to a loop is pushed, in order, but for the last call while it waits for the lock. -/
def Kept (s : TaskSystem L φ) : Prop :=
  ∀ t l, s.postedBy t l ++ pendingFor l (s.threads t).posting = s.calledFor t l

theorem Kept.setThread {t : ThreadId L} {thread : TaskThread L φ} (h : s.Kept)
    (hthread : ∀ l, s.postedBy t l ++ pendingFor l thread.posting = thread.calls.filterMap (funcFor l)) :
    (s.setThread t thread).Kept := by
  intro t' l
  rw [calledFor, setThread_threads]
  by_cases ht : t' = t
  · subst ht
    rw [Function.update_self]
    exact hthread l
  · rw [Function.update_of_ne ht]
    exact h t' l

theorem Kept.setLoop {l : L} {loop : TaskLoop L φ} (h : s.Kept) (hposted : loop.posted = (s.loops l).posted) :
    (s.setLoop l loop).Kept := by
  intro t l'
  rw [postedBy, setLoop_loops]
  by_cases hl : l' = l
  · subst hl
    rw [Function.update_self, hposted]
    exact h t l'
  · rw [Function.update_of_ne hl]
    exact h t l'

theorem Kept.quiet {t : ThreadId L} {thread : TaskThread L φ} (h : s.Kept) (hcalls : thread.calls = (s.threads t).calls)
    (hpending : ∀ l, pendingFor l thread.posting = pendingFor l (s.threads t).posting) : (s.setThread t thread).Kept :=
  h.setThread fun l => by
    rw [hpending, hcalls]
    exact h t l

theorem Kept.lock {t : ThreadId L} {l : L} {f : φ} (h : s.Kept)
    (hposting : (s.threads t).posting = .locking ⟨l, f⟩) (lock : Option (ThreadId L)) (functions : List φ) :
    ((s.setLoop l { s.loops l with lock, functions, posted := (s.loops l).posted ++ [(t, f)] }).setThread t
      { s.threads t with posting := .waking l }).Kept := by
  intro t' l'
  have hkept := h t' l'
  rw [calledFor] at hkept ⊢
  rw [postedBy, setThread_loops, setLoop_loops, setThread_threads]
  by_cases ht : t' = t
  · subst ht
    rw [hposting] at hkept
    rw [Function.update_self]
    by_cases hl : l' = l
    · subst hl
      simp only [pendingFor, funcFor, if_true, Option.toList_some, postedBy] at hkept
      simpa only [Function.update_self, List.filterMap_append, List.filterMap_cons, if_true, List.filterMap_nil,
        pendingFor, List.append_nil] using hkept
    · simp only [pendingFor, funcFor, if_neg (Ne.symm hl), Option.toList_none] at hkept
      rw [Function.update_of_ne hl]
      exact hkept
  · rw [Function.update_of_ne ht]
    by_cases hl : l' = l
    · subst hl
      rw [Function.update_self, List.filterMap_append]
      simp only [List.filterMap_cons, if_neg (Ne.symm ht), List.filterMap_nil, List.append_nil]
      exact hkept
    · rw [Function.update_of_ne hl]
      exact hkept

theorem Kept.stepped (h : s.Kept) (hstep : Stepped body s a s') : s'.Kept := by
  cases hstep with
  | own hnone hmakes hown => exact h.quiet rfl fun l => by rw [hnone]
  | @other _ t call frames hnone hmakes hother =>
      refine h.setThread fun l => ?_
      have hkept := h t l
      rw [hnone, calledFor] at hkept
      simp only [pendingFor, List.append_nil] at hkept
      rw [List.filterMap_append, ← hkept]
      cases hcall : funcFor l call <;> simp [pendingFor, hcall]
  | inner hnone hframes hinner => exact h.quiet rfl fun l => rfl
  | finished hnone hframes hphase => exact Kept.quiet (h.setLoop rfl) rfl fun l => rfl
  | lock hposting hlock => exact h.lock hposting _ _
  | wake hposting =>
      refine Kept.quiet (h.setLoop rfl) rfl fun l => ?_
      rw [setLoop_threads, hposting]
      rfl
  | unlock hposting =>
      refine Kept.quiet (h.setLoop rfl) rfl fun l => ?_
      rw [setLoop_threads, hposting]
      rfl
  | timeout hphase => exact h.setLoop rfl
  | reported hpipe hphase hqueued => exact h.setLoop rfl
  | onRead hphase hrest => exact h.setLoop rfl
  | dispatched hphase hrest => exact h.setLoop rfl
  | lockFunctions hphase hlock => exact h.setLoop rfl
  | emptied hphase hrest hempty => exact h.setLoop rfl
  | started hphase hrest hfunctions => exact Kept.quiet (h.setLoop rfl) rfl fun l => rfl
  | timersDone hphase hrest => exact h.setLoop rfl

/-- What the queue of a loop holds besides the function that is running. -/
def waitingFor (s : TaskSystem L φ) (l : L) : List φ :=
  if (s.loops l).phase = .running ∧ (s.threads (.loop l)).frames.isEmpty = false then (s.loops l).functions.tail
  else (s.loops l).functions

omit [DecidableEq L] in
theorem InOrder.started_append (h : s.InOrder) (l : L) :
    (s.loops l).started ++ s.waitingFor l = (s.loops l).posted.map Prod.snd := by
  unfold waitingFor
  split
  next hbusy =>
    obtain ⟨f, rest, hfunctions, -, hposted⟩ := (h l).busy ⟨hbusy.1, List.isEmpty_eq_false_iff.mp hbusy.2⟩
    rw [hposted, hfunctions, List.tail_cons]
  next hidle =>
    refine ((h l).idle fun hbusy => hidle ⟨hbusy.1, ?_⟩).symm
    exact List.isEmpty_eq_false_iff.mpr hbusy.2

/-- The invariant of all runs. -/
structure Accounted (s : TaskSystem L φ) : Prop where
  orderly : s.Orderly
  inOrder : s.InOrder
  kept : s.Kept

theorem Accounted.init : ({} : TaskSystem L φ).Accounted where
  orderly := .init
  inOrder _ := ⟨fun _ => rfl, fun h => absurd rfl h.2⟩
  kept _ _ := rfl

theorem Accounted.step (h : s.Accounted) (hstep : s.step body a = some s') : s'.Accounted where
  orderly := h.orderly.stepped (step_stepped hstep)
  inOrder := h.inOrder.stepped h.orderly (step_stepped hstep)
  kept := h.kept.stepped (step_stepped hstep)

theorem run_accounted {actions : List (TaskAction L φ)}
    (hrun : run (step body) {} actions = some s) : s.Accounted :=
  run_invariant (I := Accounted) (fun _ _ _ h hstep => h.step hstep) .init hrun

/-- In every interleaving a loop runs what is pushed to it once and in order, and a thread pushes what it
gives to a loop once and in the order of its calls. -/
theorem runInLoop_once_in_order (actions : List (TaskAction L φ))
    (hrun : run (step body) {} actions = some s) (l : L) :
    (s.loops l).started ++ s.waitingFor l = (s.loops l).posted.map Prod.snd ∧
      ∀ t, s.postedBy t l ++ pendingFor l (s.threads t).posting = s.calledFor t l :=
  have h := run_accounted hrun
  ⟨h.inOrder.started_append l, fun t => h.kept t l⟩

/-- Two threads give functions to one loop; the first of them is running. -/
theorem runInLoop_once_in_order_two : ∃ s : TaskSystem Unit Nat,
    (s.loops ()).started = [7] ∧
    (s.loops ()).started ++ s.waitingFor () = (s.loops ()).posted.map Prod.snd ∧
      ∀ t, s.postedBy t () ++ pendingFor () (s.threads t).posting = s.calledFor t () :=
  ⟨_, rfl, runInLoop_once_in_order
    [.call (.other 0) ⟨(), 7⟩, .call (.other 1) ⟨(), 8⟩, .lock (.other 0), .wake (.other 0) (.taken true),
      .unlock (.other 0), .epollWait () true, .onRead (), .dispatched (), .lockFunctions (), .next ()]
    (rfl : run (step fun _ => []) {} _ = some _) ()⟩

/-! ## One call of `RunFunctions` -/

/-- All that was pushed up to the end of `RunFunctions` is `all`. -/
def Batch (all : List φ) (loop : TaskLoop L φ) : Prop :=
  (loop.phase = .running ∧ loop.posted.map Prod.snd = all) ∨ (loop.phase = .timers ∧ loop.started = all)

section Batch
variable {l : L} {all : List φ}

theorem Batch.setLoop {l' : L} {loop : TaskLoop L φ} (h : Batch all (s.loops l)) (hloop : l' = l → Batch all loop) :
    Batch all ((s.setLoop l' loop).loops l) := by
  rw [setLoop_loops]
  by_cases hl : l = l'
  · subst hl
    rw [Function.update_self]
    exact hloop rfl
  · rw [Function.update_of_ne hl]
    exact h

omit [DecidableEq L] in
theorem Batch.phase {loop : TaskLoop L φ} (h : Batch all loop) : loop.phase = .running ∨ loop.phase = .timers :=
  h.imp And.left And.left

/-- While `RunFunctions` has the lock nothing is pushed. -/
theorem Batch.stepped (h : Batch all (s.loops l)) (haccounted : s.Accounted) (hnot : a ≠ .timersDone l)
    (hstep : Stepped body s a s') : Batch all (s'.loops l) := by
  cases hstep with
  | own hnone hmakes hown => exact h
  | other hnone hmakes hother => exact h
  | inner hnone hframes hinner => exact h
  | finished hnone hframes hphase => exact h.setLoop fun hl => hl ▸ h
  | lock hposting hlock =>
      refine h.setLoop fun hl => ?_
      subst hl
      rcases h with ⟨hphase, -⟩ | htimers
      · exact absurd (.inr ⟨rfl, hphase⟩) (haccounted.orderly.not_holds (t := .loop _) hlock)
      · exact .inr htimers
  | wake hposting => exact h.setLoop fun hl => hl ▸ h
  | unlock hposting => exact h.setLoop fun hl => hl ▸ h
  | timeout hphase =>
      refine h.setLoop fun hl => ?_
      subst hl
      rcases h.phase with hp | hp <;> cases hphase.symm.trans hp
  | reported hpipe hphase hqueued =>
      refine h.setLoop fun hl => ?_
      subst hl
      rcases h.phase with hp | hp <;> cases hphase.symm.trans hp
  | onRead hphase hrest =>
      refine h.setLoop fun hl => ?_
      subst hl
      rcases h.phase with hp | hp <;> cases hphase.symm.trans hp
  | dispatched hphase hrest =>
      refine h.setLoop fun hl => ?_
      subst hl
      rcases h.phase with hp | hp <;> cases hphase.symm.trans hp
  | lockFunctions hphase hlock =>
      refine h.setLoop fun hl => ?_
      subst hl
      rcases h.phase with hp | hp <;> cases hphase.symm.trans hp
  | @emptied l' hphase hrest hempty =>
      refine h.setLoop fun hl => ?_
      subst hl
      rcases h with ⟨-, hposted⟩ | ⟨hp, -⟩
      · have hidle := (haccounted.inOrder l').idle fun hbusy => hbusy.2 hrest.frames
        rw [hempty, List.append_nil, hposted] at hidle
        exact .inr ⟨rfl, hidle.symm⟩
      · cases hphase.symm.trans hp
  | started hphase hrest hfunctions =>
      refine h.setLoop fun hl => ?_
      subst hl
      rcases h with hrunning | ⟨hp, -⟩
      · exact .inl hrunning
      · cases hphase.symm.trans hp
  | timersDone hphase hrest =>
      refine h.setLoop fun hl => ?_
      subst hl
      exact absurd rfl hnot

end Batch

/-- A call of `RunFunctions` runs what is in the queue when it gets the lock, and nothing that comes
after: up to its end nothing is pushed. -/
theorem runFunctions_batch (first actions : List (TaskAction L φ)) (l : L) {s₀ s₁ s₂ : TaskSystem L φ}
    (hfirst : run (step body) {} first = some s₀)
    (hlock : s₀.step body (.lockFunctions l) = some s₁)
    (hrun : run (step body) s₁ actions = some s₂) (hone : .timersDone l ∉ actions) :
    ((s₂.loops l).phase = .running ∧
        (s₂.loops l).started ++ s₂.waitingFor l = (s₀.loops l).started ++ (s₀.loops l).functions) ∨
      ((s₂.loops l).phase = .timers ∧ (s₂.loops l).started = (s₀.loops l).started ++ (s₀.loops l).functions) := by
  have haccounted := run_accounted hfirst
  have hbatch : Batch ((s₀.loops l).started ++ (s₀.loops l).functions) (s₁.loops l) := by
    obtain ⟨⟨hphase, -⟩, heq⟩ := Option.ite_none_right_eq_some.mp hlock
    cases heq
    rw [setLoop_loops, Function.update_self]
    refine .inl ⟨rfl, (haccounted.inOrder l).idle fun hbusy => ?_⟩
    cases hphase.symm.trans hbusy.1
  have hboth : s₂.Accounted ∧ Batch ((s₀.loops l).started ++ (s₀.loops l).functions) (s₂.loops l) :=
    run_invariant_of (P := (· ≠ .timersDone l)) (I := fun s => s.Accounted ∧ Batch _ (s.loops l))
      (fun _ _ _ hnot h hstep => ⟨h.1.step hstep, h.2.stepped h.1 hnot (step_stepped hstep)⟩)
      ⟨haccounted.step hlock, hbatch⟩ (fun a ha heq => hone (by rwa [← heq])) hrun
  refine hboth.2.imp_left fun ⟨hphase, hposted⟩ => ⟨hphase, ?_⟩
  rw [hboth.1.inOrder.started_append l, hposted]

/-- The second function is pushed too late for the first call. -/
theorem runFunctions_batch_late : ∃ s₀ s₁ s₂ : TaskSystem Unit Nat,
    s₀.step (fun _ => []) (.lockFunctions ()) = some s₁ ∧
    run (step fun _ => []) s₁ [.call (.other 1) ⟨(), 8⟩, .next (), .advance (.loop ()), .next ()] = some s₂ ∧
    (((s₂.loops ()).phase = .running ∧
        (s₂.loops ()).started ++ s₂.waitingFor () = (s₀.loops ()).started ++ (s₀.loops ()).functions) ∨
      ((s₂.loops ()).phase = .timers ∧ (s₂.loops ()).started = (s₀.loops ()).started ++ (s₀.loops ()).functions)) :=
  ⟨_, _, _, rfl, rfl, runFunctions_batch
    [.call (.other 0) ⟨(), 7⟩, .lock (.other 0), .wake (.other 0) (.taken true), .unlock (.other 0), .epollWait () true,
      .onRead (), .dispatched ()]
    [.call (.other 1) ⟨(), 8⟩, .next (), .advance (.loop ()), .next ()] ()
    (rfl : run (step fun _ => []) {} _ = some _) rfl rfl (by simp)⟩

end TaskSystem
end TmmsServer
