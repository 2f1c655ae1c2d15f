import Mathlib.Data.Fintype.Card
import TmmsServer.Net.TaskRuns

/-!
# Functions that call other loops

`RunFunctions` has `lock_` while a function runs, and `RunInLoop` of another loop waits for
the lock of that one. Where functions call the loops in one order only, some thread can
always go on; where the functions of two loops call each other's loop, both may stop for
good.
-/
namespace TmmsServer
open Lib.Runs Lib.LockOrder Relation

namespace TaskSystem
variable {L φ : Type} [DecidableEq L] {body : φ → List (TaskCall L φ)}
  {s s' : TaskSystem L φ} {a : TaskAction L φ}

def holder (s : TaskSystem L φ) (l : L) : Option (ThreadId L) := (s.loops l).lock

/-- `RunFunctions` is before its lock at this thread. -/
def beforeFunctions (s : TaskSystem L φ) : ThreadId L → Option L
  | .loop l => if (s.loops l).phase = .locking then some l else none
  | .other _ => none

/-- The lock that a thread waits for, or is about to take. -/
def wants (s : TaskSystem L φ) (t : ThreadId L) : Option L :=
  match (s.threads t).posting with
  | .locking call => some call.loop
  | _ => s.beforeFunctions t

omit [DecidableEq L] in
theorem wants_locking {t : ThreadId L} {call : TaskCall L φ} (h : (s.threads t).posting = .locking call) :
    s.wants t = some call.loop := by
  rw [wants, h]

omit [DecidableEq L] in
theorem beforeFunctions_some {t : ThreadId L} {l : L} (h : s.beforeFunctions t = some l) :
    t = .loop l ∧ (s.loops l).phase = .locking := by
  cases t with
  | loop l' =>
      obtain ⟨hphase, heq⟩ := Option.ite_none_right_eq_some.mp h
      cases heq
      exact ⟨rfl, hphase⟩
  | other n => cases h

omit [DecidableEq L] in
theorem wants_some {t : ThreadId L} {l : L} (h : s.wants t = some l) :
    (∃ f, (s.threads t).posting = .locking ⟨l, f⟩) ∨ t = .loop l ∧ (s.loops l).phase = .locking := by
  unfold wants at h
  split at h
  next call hposting =>
    cases h
    exact .inl ⟨call.func, hposting⟩
  next => exact .inr (beforeFunctions_some h)

omit [DecidableEq L] in
theorem wants_congr {t : ThreadId L} (hthread : s'.threads t = s.threads t)
    (hphase : ∀ l, t = .loop l → (s'.loops l).phase = (s.loops l).phase) : s'.wants t = s.wants t := by
  have hbefore : s'.beforeFunctions t = s.beforeFunctions t := by
    cases t with
    | loop l => simp only [beforeFunctions, hphase l rfl]
    | other n => rfl
  rw [wants, wants, hthread, hbefore]

/-! ## Functions that call the loops in order -/

section Order
variable {κ : Type} [Preorder κ] (rank : L → κ) (home : φ → L)

/-- A call is for the loop its function belongs to; from the thread of a loop that is this one, or one
after it. -/
structure Upward (t : ThreadId L) (call : TaskCall L φ) : Prop where
  belongs : home call.func = call.loop
  upward : ∀ l, t = .loop l → call.loop = l ∨ rank l < rank call.loop

/-- Functions call the loop they belong to and those after it. -/
def Ordered (body : φ → List (TaskCall L φ)) : Prop :=
  ∀ f, ∀ call ∈ body f, Upward rank home (.loop (home f)) call

/-- Code that is no function gives functions to the loops they belong to. -/
def Belongs : TaskAction L φ → Prop
  | .call _ call => home call.func = call.loop
  | _ => True

/-- What is queued, running and about to be pushed. -/
structure Rising (s : TaskSystem L φ) : Prop where
  queued : ∀ l, ∀ f ∈ (s.loops l).functions, home f = l
  frames : ∀ t, ∀ frame ∈ (s.threads t).frames, ∀ call ∈ frame, Upward rank home t call
  posting : ∀ t call, (s.threads t).posting = .locking call →
    ∀ l, t = .loop l → (s.loops l).phase = .running → rank l < rank call.loop
  belongs : ∀ t call, (s.threads t).posting = .locking call → home call.func = call.loop

variable {rank home} {t : ThreadId L} {l : L} {thread : TaskThread L φ} {loop : TaskLoop L φ}

omit [DecidableEq L] in
theorem Rising.init : Rising rank home ({} : TaskSystem L φ) where
  queued l f hf := by cases hf
  frames t frame hframe := by cases hframe
  posting t call hposting := by cases hposting
  belongs t call hposting := by cases hposting

theorem Rising.setThread (h : Rising rank home s)
    (hframes : ∀ frame ∈ thread.frames, ∀ call ∈ frame, Upward rank home t call)
    (hposting : ∀ call, thread.posting = .locking call → home call.func = call.loop ∧
      ∀ l, t = .loop l → (s.loops l).phase = .running → rank l < rank call.loop) :
    Rising rank home (s.setThread t thread) where
  queued := h.queued
  frames t' := by
    rw [setThread_threads]
    by_cases ht : t' = t
    · subst ht
      rw [Function.update_self]
      exact hframes
    · rw [Function.update_of_ne ht]
      exact h.frames t'
  posting t' := by
    rw [setThread_threads]
    by_cases ht : t' = t
    · subst ht
      rw [Function.update_self]
      exact fun call hlocking => (hposting call hlocking).2
    · rw [Function.update_of_ne ht]
      exact h.posting t'
  belongs t' := by
    rw [setThread_threads]
    by_cases ht : t' = t
    · subst ht
      rw [Function.update_self]
      exact fun call hlocking => (hposting call hlocking).1
    · rw [Function.update_of_ne ht]
      exact h.belongs t'

theorem Rising.setLoop (h : Rising rank home s) (hqueued : ∀ f ∈ loop.functions, home f = l)
    (hrunning : loop.phase = .running → (s.loops l).phase = .running ∨ (s.threads (.loop l)).Resting) :
    Rising rank home (s.setLoop l loop) where
  queued l' := by
    rw [setLoop_loops]
    by_cases hl : l' = l
    · subst hl
      rw [Function.update_self]
      exact hqueued
    · rw [Function.update_of_ne hl]
      exact h.queued l'
  frames := h.frames
  posting t' call hlocking l' ht hphase := by
    rw [setLoop_loops] at hphase
    by_cases hl : l' = l
    · subst hl
      rw [Function.update_self] at hphase
      rcases hrunning hphase with hbefore | hrest
      · exact h.posting t' call hlocking l' ht hbefore
      · subst ht
        cases hrest.posting.symm.trans hlocking
    · rw [Function.update_of_ne hl] at hphase
      exact h.posting t' call hlocking l' ht hphase
  belongs := h.belongs

omit [DecidableEq L] in
theorem Rising.makes {call : TaskCall L φ} {frames : List (List (TaskCall L φ))} (h : Rising rank home s)
    (hbelongs : Belongs home a) (hmakes : s.Makes a t call frames) :
    home call.func = call.loop ∧ (∀ frame ∈ frames, ∀ call ∈ frame, Upward rank home t call) ∧
      ∀ l, t = .loop l → (s.loops l).phase = .running → call.loop = l ∨ rank l < rank call.loop := by
  rcases hmakes with ⟨rfl, hmay, -, rfl⟩ | ⟨rfl, calls, outer, hframes, rfl⟩
  · refine ⟨hbelongs, fun frame hframe => (List.not_mem_nil hframe).elim, fun l ht hphase => ?_⟩
    subst ht
    simp [mayCall, hphase] at hmay
  · have hall := h.frames t
    rw [hframes] at hall
    have hcall := hall _ List.mem_cons_self call List.mem_cons_self
    refine ⟨hcall.belongs, fun frame hframe c hc => ?_, fun l ht _ => hcall.upward l ht⟩
    rcases List.mem_cons.mp hframe with rfl | hframe
    · exact hall _ List.mem_cons_self c (List.mem_cons_of_mem _ hc)
    · exact hall frame (List.mem_cons_of_mem _ hframe) c hc

theorem Rising.stepped (hordered : Ordered rank home body) (h : Rising rank home s) (horderly : s.Orderly)
    (hbelongs : Belongs home a) (hstep : Stepped body s a s') : Rising rank home s' := by
  cases hstep with
  | @own _ t call frames hnone hmakes hown =>
      obtain ⟨hhome, hrest, -⟩ := h.makes hbelongs hmakes
      refine h.setThread (fun frame hframe c hc => ?_) fun c hlocking => by cases hlocking
      rcases List.mem_cons.mp hframe with rfl | hframe
      · rw [hown, ← hhome]
        exact hordered _ c hc
      · exact hrest frame hframe c hc
  | @other _ t call frames hnone hmakes hother =>
      obtain ⟨hhome, hrest, hupward⟩ := h.makes hbelongs hmakes
      refine h.setThread hrest fun c hlocking => ?_
      cases hlocking
      refine ⟨hhome, fun l ht hphase => (hupward l ht hphase).resolve_left fun heq => ?_⟩
      rw [heq] at hother
      exact hother ht
  | @inner t outer hnone hframes hinner =>
      refine h.setThread (fun frame hframe => h.frames t frame ?_) fun c hlocking =>
        ⟨h.belongs t c hlocking, h.posting t c hlocking⟩
      rw [hframes]
      exact List.mem_cons_of_mem _ hframe
  | @finished l hnone hframes hphase =>
      refine Rising.setThread (h.setLoop (fun f hf => h.queued l f (List.mem_of_mem_tail hf)) fun _ => .inl hphase)
        (fun frame hframe => (List.not_mem_nil hframe).elim) fun c hlocking => ?_
      cases hnone.symm.trans hlocking
  | @lock t l f hposting hlock =>
      refine Rising.setThread (h.setLoop (fun g hg => ?_) .inl) (h.frames t) fun c hlocking => by cases hlocking
      rcases List.mem_append.mp hg with hg | hg
      · exact h.queued l g hg
      · rw [List.mem_singleton.mp hg]
        exact h.belongs t _ hposting
  | @wake t l answer hposting =>
      exact Rising.setThread (h.setLoop (h.queued l) .inl) (h.frames t) fun c hlocking => by cases hlocking
  | @unlock t l hposting =>
      exact Rising.setThread (h.setLoop (h.queued l) .inl) (h.frames t) fun c hlocking => by cases hlocking
  | @timeout l hphase => exact h.setLoop (h.queued l) fun hrunning => by cases hrunning
  | @reported l pipe hpipe hphase hqueued => exact h.setLoop (h.queued l) fun hrunning => by cases hrunning
  | @onRead l hphase hrest => exact h.setLoop (h.queued l) fun hrunning => by cases hrunning
  | @dispatched l hphase hrest => exact h.setLoop (h.queued l) fun hrunning => by cases hrunning
  | @lockFunctions l hphase hlock => exact h.setLoop (h.queued l) fun _ => .inr (horderly.settled l (.inr hphase))
  | @emptied l hphase hrest hempty => exact h.setLoop (h.queued l) fun hrunning => by cases hrunning
  | @started l f fs hphase hrest hfunctions =>
      refine Rising.setThread (h.setLoop (h.queued l) .inl) (fun frame hframe call hcall => ?_) fun c hlocking => ?_
      · obtain rfl := List.mem_singleton.mp hframe
        have hhome : home f = l := h.queued l f (by rw [hfunctions]; exact List.mem_cons_self)
        rw [← hhome]
        exact hordered f call hcall
      · cases hrest.posting.symm.trans hlocking
  | @timersDone l hphase hrest => exact h.setLoop (h.queued l) fun hrunning => by cases hrunning

theorem Rising.order (h : Rising rank home s) (horderly : s.Orderly) {l l' : L} (hholder : s.holder l = some t)
    (hwants : s.wants t = some l') : rank l < rank l' := by
  have hholds := (horderly.holder l t).mp hholder
  rcases wants_some hwants with ⟨f, hposting⟩ | ⟨rfl, hphase⟩
  · rcases hholds with hhere | ⟨rfl, hphase⟩
    · rw [hposting] at hhere
      cases hhere
    · exact h.posting _ _ hposting l rfl hphase
  · have hnone := (horderly.settled l' (.inr hphase)).posting
    rcases hholds with hhere | ⟨heq, hrunning⟩
    · rw [hnone] at hhere
      cases hhere
    · cases heq
      cases hphase.symm.trans hrunning

end Order

/-- A thread that has a lock and waits for none can go on. -/
theorem Orderly.moves (h : s.Orderly) {t : ThreadId L} {l : L} (hholder : s.holder l = some t)
    (hfree : Free s.holder s.wants t) :
    ∃ a : TaskAction L φ, a.thread = t ∧ (s.step body a).isSome = true := by
  have hholds := (h.holder l t).mp hholder
  cases hposting : (s.threads t).posting with
  | none =>
      rcases hholds with hhere | ⟨rfl, hphase⟩
      · rw [hposting] at hhere
        cases hhere
      cases hframes : (s.threads (.loop l)).frames with
      | nil =>
          refine ⟨.next l, rfl, ?_⟩
          have hrest : (s.threads (.loop l)).Resting := ⟨hposting, hframes⟩
          rw [step, if_pos ⟨hphase, hrest⟩]
          cases (s.loops l).functions <;> rfl
      | cons frame outer =>
          refine ⟨.advance (.loop l), rfl, ?_⟩
          rw [step, hposting, hframes]
          cases frame <;> rfl
  | locking call =>
      refine ⟨.lock t, rfl, ?_⟩
      have hlock : (s.loops call.loop).lock = none := by
        refine Option.eq_none_iff_forall_ne_some.mpr fun t' ht' => ?_
        exact hfree t' ⟨call.loop, wants_locking hposting, ht'⟩
      simp [step, hposting, hlock]
  | waking l' =>
      refine ⟨.wake t (.taken true), rfl, ?_⟩
      simp [step, hposting]
  | unlocking l' =>
      refine ⟨.unlock t, rfl, ?_⟩
      simp [step, hposting]

/-- No deadlock: where functions call the loops in one order, whoever waits for a lock waits in the end for a
thread that can go on. -/
theorem ordered_no_deadlock {κ : Type} [Preorder κ] [WellFoundedGT κ] {rank : L → κ} {home : φ → L}
    (hordered : Ordered rank home body) (actions : List (TaskAction L φ)) (hbelongs : ∀ a ∈ actions, Belongs home a)
    (hrun : run (step body) {} actions = some s) (t t₁ : ThreadId L)
    (hwaits : WaitsFor s.holder s.wants t t₁) :
    ∃ t', ReflTransGen (WaitsFor s.holder s.wants) t₁ t' ∧
      ∃ a : TaskAction L φ, a.thread = t' ∧ (s.step body a).isSome = true := by
  have hrising : s.Orderly ∧ Rising rank home s := by
    refine run_invariant_of (I := fun s => s.Orderly ∧ Rising rank home s) (fun s a s' hbelongs h hstep => ?_)
      ⟨.init, .init⟩ hbelongs hrun
    have hstepped := step_stepped hstep
    exact ⟨h.1.stepped hstepped, h.2.stepped hordered h.1 hbelongs hstepped⟩
  obtain ⟨horderly, hrising⟩ := hrising
  obtain ⟨t', hpath, hfree⟩ := exists_free rank
    (fun t l l' (hholder : s.holder l = some t) (hwants : s.wants t = some l') =>
      hrising.order horderly hholder hwants) t₁
  have hholder : ∃ l, s.holder l = some t' := by
    rcases ReflTransGen.cases_tail hpath with rfl | ⟨u, -, l, -, hl⟩
    · obtain ⟨l, -, hl⟩ := hwaits
      exact ⟨l, hl⟩
    · exact ⟨l, hl⟩
  obtain ⟨l, hl⟩ := hholder
  exact ⟨t', hpath, horderly.moves hl hfree⟩

/-- The function of the first loop calls the second one, whose lock another thread has. -/
theorem ordered_no_deadlock_two : ∃ s : TaskSystem Bool Bool,
    ∃ t', ReflTransGen (WaitsFor s.holder s.wants) (.other 1) t' ∧
      ∃ a : TaskAction Bool Bool, a.thread = t' ∧
        (s.step (fun f => bif f then [] else [⟨true, true⟩]) a).isSome = true := by
  have hordered : Ordered id id fun f => bif f then [] else [(⟨true, true⟩ : TaskCall Bool Bool)] := by
    intro f call hcall
    cases f with
    | true => cases hcall
    | false =>
        obtain rfl := List.mem_singleton.mp hcall
        exact ⟨rfl, fun l hl => .inr (by cases hl; decide)⟩
  refine ⟨_, ordered_no_deadlock hordered
    [.call (.other 0) ⟨false, false⟩, .lock (.other 0), .wake (.other 0) (.taken true), .unlock (.other 0),
      .epollWait false false, .dispatched false, .lockFunctions false, .next false, .call (.other 1) ⟨true, true⟩,
      .lock (.other 1), .advance (.loop false)] ?_ rfl (.loop false) (.other 1) ⟨true, rfl, rfl⟩⟩
  simp [Belongs]

/-! ## Functions of two loops that call each other's loop -/

omit [DecidableEq L] in
theorem Makes.thread {t : ThreadId L} {call : TaskCall L φ} {frames : List (List (TaskCall L φ))}
    (hmakes : s.Makes a t call frames) : a.thread = t := by
  rcases hmakes with ⟨rfl, -⟩ | ⟨rfl, -⟩
  · rfl
  · rfl

theorem Stepped.thread {t : ThreadId L} (hstep : Stepped body s a s') (hne : t ≠ a.thread) :
    s'.threads t = s.threads t := by
  cases hstep with
  | own hnone hmakes hown => exact Function.update_of_ne (hmakes.thread ▸ hne) _ _
  | other hnone hmakes hother => exact Function.update_of_ne (hmakes.thread ▸ hne) _ _
  | inner => exact Function.update_of_ne hne _ _
  | finished => exact Function.update_of_ne hne _ _
  | lock => exact Function.update_of_ne hne _ _
  | wake => exact Function.update_of_ne hne _ _
  | unlock => exact Function.update_of_ne hne _ _
  | started => exact Function.update_of_ne hne _ _
  | _ => rfl

theorem Stepped.phase {l : L} (hstep : Stepped body s a s') (hne : .loop l ≠ a.thread) :
    (s'.loops l).phase = (s.loops l).phase := by
  have hloop : ∀ l' loop, (l = l' → loop.phase = (s.loops l).phase) →
      ((s.setLoop l' loop).loops l).phase = (s.loops l).phase := by
    intro l' loop hphase
    rw [setLoop_loops]
    by_cases hl : l = l'
    · subst hl
      rw [Function.update_self]
      exact hphase rfl
    · rw [Function.update_of_ne hl]
  cases hstep with
  | own => rfl
  | other => rfl
  | inner => rfl
  | finished => exact hloop _ _ fun hl => by rw [hl]
  | lock => exact hloop _ _ fun hl => by rw [hl]
  | wake => exact hloop _ _ fun hl => by rw [hl]
  | unlock => exact hloop _ _ fun hl => by rw [hl]
  | started => exact hloop _ _ fun hl => by rw [hl]
  | _ => exact hloop _ _ fun hl => absurd (congrArg ThreadId.loop hl) hne

theorem Stepped.lock_kept {t : ThreadId L} {l : L} (horderly : s.Orderly) (hstep : Stepped body s a s')
    (hlock : (s.loops l).lock = some t) (hne : t ≠ a.thread) : (s'.loops l).lock = some t := by
  have hloop : ∀ l' loop, (l = l' → loop.lock = some t) → ((s.setLoop l' loop).loops l).lock = some t := by
    intro l' loop hkept
    rw [setLoop_loops]
    by_cases hl : l = l'
    · subst hl
      rw [Function.update_self]
      exact hkept rfl
    · rw [Function.update_of_ne hl]
      exact hlock
  have hholds := (horderly.holder l t).mp hlock
  cases hstep with
  | own => exact hlock
  | other => exact hlock
  | inner => exact hlock
  | lock hposting hfree =>
      refine hloop _ _ fun hl => ?_
      subst hl
      cases hfree.symm.trans hlock
  | @unlock t' l' hposting =>
      refine hloop _ _ fun hl => ?_
      subst hl
      have hhere : s.Holds t' l := .inl (by rw [hposting]; exact decide_eq_true rfl)
      exact absurd (horderly.holds_unique hhere hholds) hne
  | lockFunctions hphase hfree =>
      refine hloop _ _ fun hl => ?_
      subst hl
      cases hfree.symm.trans hlock
  | emptied hphase hrest hempty =>
      refine hloop _ _ fun hl => ?_
      subst hl
      exact absurd (horderly.holds_unique (.inr ⟨rfl, hphase⟩) hholds) hne
  | _ =>
      refine hloop _ _ fun hl => ?_
      subst hl
      exact hlock

/-- A thread that waits for a lock moves only when it is free. -/
theorem Stepped.lock_free {l : L} (horderly : s.Orderly) (hstep : Stepped body s a s')
    (hwants : s.wants a.thread = some l) : (s.loops l).lock = none := by
  rcases wants_some hwants with ⟨f, hlocking⟩ | ⟨ht, hlocking⟩
  · cases hstep with
    | own hnone hmakes hown =>
        rw [hmakes.thread, hnone] at hlocking
        cases hlocking
    | other hnone hmakes hother =>
        rw [hmakes.thread, hnone] at hlocking
        cases hlocking
    | inner hnone hframes hinner => cases hnone.symm.trans hlocking
    | finished hnone hframes hphase => cases hnone.symm.trans hlocking
    | lock hposting hlock =>
        cases hposting.symm.trans hlocking
        exact hlock
    | wake hposting => cases hposting.symm.trans hlocking
    | unlock hposting => cases hposting.symm.trans hlocking
    | timeout hphase => cases (horderly.settled _ (.inl hphase)).posting.symm.trans hlocking
    | reported hpipe hphase hqueued => cases (horderly.settled _ (.inl hphase)).posting.symm.trans hlocking
    | lockFunctions hphase hlock => cases (horderly.settled _ (.inr hphase)).posting.symm.trans hlocking
    | onRead hphase hrest => cases hrest.posting.symm.trans hlocking
    | dispatched hphase hrest => cases hrest.posting.symm.trans hlocking
    | emptied hphase hrest hempty => cases hrest.posting.symm.trans hlocking
    | started hphase hrest hfunctions => cases hrest.posting.symm.trans hlocking
    | timersDone hphase hrest => cases hrest.posting.symm.trans hlocking
  · have hrest := horderly.settled l (.inr hlocking)
    cases hstep with
    | own hnone hmakes hown =>
        exact absurd (.inr hlocking) (horderly.makes_not_settled hmakes (hmakes.thread.symm.trans ht))
    | other hnone hmakes hother =>
        exact absurd (.inr hlocking) (horderly.makes_not_settled hmakes (hmakes.thread.symm.trans ht))
    | inner hnone hframes hinner =>
        cases ht
        exact absurd hrest (not_resting hframes)
    | finished hnone hframes hphase =>
        cases ht
        exact absurd hrest (not_resting hframes)
    | lock hposting hlock =>
        cases ht
        cases hposting.symm.trans hrest.posting
    | wake hposting =>
        cases ht
        cases hposting.symm.trans hrest.posting
    | unlock hposting =>
        cases ht
        cases hposting.symm.trans hrest.posting
    | lockFunctions hphase hlock =>
        cases ht
        exact hlock
    | timeout hphase =>
        cases ht
        cases hphase.symm.trans hlocking
    | reported hpipe hphase hqueued =>
        cases ht
        cases hphase.symm.trans hlocking
    | onRead hphase hrest =>
        cases ht
        cases hphase.symm.trans hlocking
    | dispatched hphase hrest =>
        cases ht
        cases hphase.symm.trans hlocking
    | emptied hphase hrest hempty =>
        cases ht
        cases hphase.symm.trans hlocking
    | started hphase hrest hfunctions =>
        cases ht
        cases hphase.symm.trans hlocking
    | timersDone hphase hrest =>
        cases ht
        cases hphase.symm.trans hlocking

/-- Between the moves of others a thread keeps the locks it has and the lock it waits for; one that waits
for a lock someone has does not move. -/
theorem locking : Locking (fun s : { s : TaskSystem L φ // s.Orderly } => s.1.holder) (fun s => s.1.wants)
    fun s t s' => ∃ a : TaskAction L φ, a.thread = t ∧ s.1.step body a = some s'.1 where
  blocked s t s' r t' hmove hwants hholder := by
    obtain ⟨a, rfl, hstep⟩ := hmove
    rw [holder, (step_stepped hstep).lock_free s.2 hwants] at hholder
    cases hholder
  keeps s t s' r t' hmove hne hholder := by
    obtain ⟨a, rfl, hstep⟩ := hmove
    exact (step_stepped hstep).lock_kept s.2 hholder hne
  others s t s' t' hmove hne := by
    obtain ⟨a, rfl, hstep⟩ := hmove
    have hstepped := step_stepped hstep
    refine wants_congr (hstepped.thread hne) fun l hl => hstepped.phase ?_
    rwa [← hl]

/-- No thread of a deadlock ever takes a step again. -/
theorem deadlocked_forever {stuck : Set (ThreadId L)} (horderly : s.Orderly)
    (h : Deadlocked TaskSystem.holder TaskSystem.wants s stuck) (more : List (TaskAction L φ))
    (hrun : run (step body) s more = some s') : ∀ a ∈ more, a.thread ∉ stuck := by
  induction more generalizing s with
  | nil => exact fun a ha => (List.not_mem_nil ha).elim
  | cons b more ih =>
      obtain ⟨s₁, hstep, hrest⟩ := run_cons_iff.mp hrun
      have h₀ : Deadlocked (fun s : { s : TaskSystem L φ // s.Orderly } => s.1.holder) (fun s => s.1.wants)
          ⟨s, horderly⟩ stuck := h
      have horderly₁ := horderly.stepped (step_stepped hstep)
      let t₁ : { s : TaskSystem L φ // s.Orderly } := ⟨s₁, horderly₁⟩
      have hmove : ∃ a : TaskAction L φ, a.thread = b.thread ∧ s.step body a = some t₁.1 := ⟨b, rfl, hstep⟩
      have h₁ := h₀.lasts locking hmove
      have hb : b.thread ∉ stuck := fun hb => h₀.not_move locking hb hmove
      intro a ha
      rcases List.mem_cons.mp ha with rfl | ha
      · exact hb
      · exact ih horderly₁ h₁ hrest a ha

/-- A loop in `epoll_wait`, with a function in its queue. -/
structure Waits (s : TaskSystem L φ) (l : L) (f : φ) : Prop where
  phase : (s.loops l).phase = .waiting
  lock : (s.loops l).lock = none
  functions : (s.loops l).functions = [f]
  started : (s.loops l).started = []
  rest : (s.threads (.loop l)).Resting

/-- Another loop, as it is when the program starts. -/
structure Fresh (s : TaskSystem L φ) (l : L) : Prop where
  loop : s.loops l = {}
  rest : (s.threads (.loop l)).Resting

/-- A loop in `RunFunctions`, whose function waits for the lock of another loop. -/
structure Crossing (s : TaskSystem L φ) (l l' : L) (f : φ) : Prop where
  lock : (s.loops l).lock = some (.loop l)
  started : (s.loops l).started = [f]
  wants : s.wants (.loop l) = some l'

/-- The loop and its thread are as they were. -/
def Same (s s' : TaskSystem L φ) (l : L) : Prop :=
  s'.loops l = s.loops l ∧ s'.threads (.loop l) = s.threads (.loop l)

variable (body) in
theorem run_give {n : Nat} {l : L} (f : φ) (answer : PipeWrite) (hrest : (s.threads (.other n)).Resting)
    (hfresh : s.Fresh l) :
    ∃ s', run (step body) s
        [.call (.other n) ⟨l, f⟩, .lock (.other n), .wake (.other n) answer, .unlock (.other n)] = some s' ∧
      s'.Waits l f ∧ (s'.threads (.other n)).Resting ∧
      ∀ l', l' ≠ l → s.Same s' l' := by
  have hnone := hrest.posting
  refine ⟨(s.setLoop l {
      functions := [f]
      posted := [(.other n, f)]
      pipeEvent := some (PipeEvent.added.write answer) }).setThread (.other n)
    { s.threads (.other n) with calls := (s.threads (.other n)).calls ++ [⟨l, f⟩] }, ?_, ?_, ?_, ?_⟩
  · simp [run, step, mayCall, runInLoop, hrest, hnone, hfresh.loop, setThread, setLoop]
  · constructor <;> simp [hfresh.rest]
  · rw [setThread_threads, Function.update_self]
    exact ⟨hrest.posting, hrest.frames⟩
  · intro l' hl
    constructor <;> simp [hl]

theorem run_takeUp {l : L} {f : φ} {call : TaskCall L φ} {calls : List (TaskCall L φ)} (hwaits : s.Waits l f)
    (hbody : body f = call :: calls) (hother : l ≠ call.loop) :
    ∃ s', run (step body) s
        [.epollWait l false, .dispatched l, .lockFunctions l, .next l, .advance (.loop l)] = some s' ∧
      s'.Crossing l call.loop f ∧
      ∀ l', l' ≠ l → s.Same s' l' := by
  obtain ⟨hphase, hlock, hfunctions, hstarted, hrest⟩ := hwaits
  have hnone := hrest.posting
  refine ⟨(s.setLoop l { s.loops l with phase := .running, lock := some (.loop l), started := [f] }).setThread (.loop l)
    { posting := .locking call, frames := [calls], calls := (s.threads (.loop l)).calls ++ [call] }, ?_, ?_, ?_⟩
  · simp [run, step, runInLoop, hphase, hrest, hlock, hfunctions, hbody, hother, hnone, hstarted, setThread, setLoop]
  · constructor <;> simp [TaskSystem.wants]
  · intro l' hl
    constructor <;> simp [hl]

omit [DecidableEq L] in
theorem Waits.same {l : L} {f : φ} (h : s.Waits l f) (hsame : s.Same s' l) : s'.Waits l f := by
  obtain ⟨hloop, hthread⟩ := hsame
  constructor
  · exact hloop ▸ h.phase
  · exact hloop ▸ h.lock
  · exact hloop ▸ h.functions
  · exact hloop ▸ h.started
  · exact hthread ▸ h.rest

omit [DecidableEq L] in
theorem Crossing.same {l l' : L} {f : φ} (h : s.Crossing l l' f) (hsame : s.Same s' l) : s'.Crossing l l' f := by
  obtain ⟨hloop, hthread⟩ := hsame
  refine ⟨hloop ▸ h.lock, hloop ▸ h.started, ?_⟩
  rw [wants_congr hthread fun l₁ hl => by cases hl; rw [hloop]]
  exact h.wants

omit [DecidableEq L] in
theorem Crossing.deadlocked {l l' : L} {f g : φ} (h : s.Crossing l l' f) (h' : s.Crossing l' l g) :
    Deadlocked TaskSystem.holder TaskSystem.wants s {.loop l, .loop l'} := by
  rintro t (rfl | rfl)
  · exact ⟨.loop l', .inr rfl, l', h.wants, h'.lock⟩
  · exact ⟨.loop l, .inl rfl, l, h'.wants, h.lock⟩

/-- Two loops stop for good, whatever comes of the writes to their pipes: a function of each calls the other, and
neither thread takes a step after that. -/
theorem crossing_deadlock (a b : L) (hab : a ≠ b) (f g x y : φ) (fs gs : List (TaskCall L φ))
    (hf : body f = ⟨b, x⟩ :: fs) (hg : body g = ⟨a, y⟩ :: gs) (answer : PipeWrite) :
    ∃ actions, ∃ s : TaskSystem L φ, run (step body) {} actions = some s ∧
      (∀ t answer', .wake t answer' ∈ actions → answer' = answer) ∧
      (s.loops a).started = [f] ∧ (s.loops b).started = [g] ∧
      ∀ more s', run (step body) s more = some s' →
        ∀ action ∈ more, action.thread ≠ .loop a ∧ action.thread ≠ .loop b := by
  obtain ⟨s₁, h₁, hwaits, hrest, hsame₁⟩ := run_give body (s := {}) (n := 0) (l := a) f answer
    ⟨rfl, rfl⟩ ⟨rfl, ⟨rfl, rfl⟩⟩
  have hfresh : s₁.Fresh b := by
    obtain ⟨hloop, hthread⟩ := hsame₁ b hab.symm
    refine ⟨hloop, ?_⟩
    rw [hthread]
    exact ⟨rfl, rfl⟩
  obtain ⟨s₂, h₂, hwaits', -, hsame₂⟩ := run_give body g answer hrest hfresh
  obtain ⟨s₃, h₃, hcrossing, hsame₃⟩ := run_takeUp (hwaits.same (hsame₂ a hab)) hf hab
  obtain ⟨s₄, h₄, hcrossing', hsame₄⟩ :=
    run_takeUp (hwaits'.same (hsame₃ b hab.symm)) hg hab.symm
  have hrun := run_trans h₁ (run_trans h₂ (run_trans h₃ h₄))
  have hcrossing₄ := hcrossing.same (hsame₄ a hab)
  refine ⟨_, s₄, hrun, ?_, hcrossing₄.started, hcrossing'.started, fun more s' hmore action haction => ?_⟩
  · intro t answer' hmem
    simp only [List.mem_append, List.mem_cons, List.not_mem_nil, TaskAction.wake.injEq, reduceCtorEq, or_false,
      false_or] at hmem
    exact hmem.elim And.right And.right
  have hnever :=
    deadlocked_forever (run_orderly .init hrun) (hcrossing₄.deadlocked hcrossing') more hmore action haction
  exact ⟨fun heq => hnever (.inl heq), fun heq => hnever (.inr heq)⟩

/-- Two loops whose functions give themselves to the other loop. -/
theorem crossing_deadlock_two : ∃ actions, ∃ s : TaskSystem Bool Bool,
    run (step fun f => [⟨!f, f⟩]) {} actions = some s ∧
      (∀ t answer', .wake t answer' ∈ actions → answer' = .taken true) ∧
      (s.loops false).started = [false] ∧ (s.loops true).started = [true] ∧
      ∀ more s', run (step fun f => [⟨!f, f⟩]) s more = some s' →
        ∀ action ∈ more, action.thread ≠ .loop false ∧ action.thread ≠ .loop true :=
  crossing_deadlock false true (by decide) false true false true [] [] rfl rfl (.taken true)

end TaskSystem
end TmmsServer
