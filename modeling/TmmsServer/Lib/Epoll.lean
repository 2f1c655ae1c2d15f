import Mathlib.Data.List.Basic

/-!
# Readiness queues

What epoll keeps of a descriptor: the conditions that hold, the mask it is
registered under, and whether its readiness is queued. Readiness is queued when a
condition of the mask newly holds or the registration is modified; a report carries
what holds then, and clears it where the mask is edge-triggered.
-/
namespace Lib.Epoll

/-- The bits of `epoll_event.events`. -/
structure Events where
  epollin : Bool := false
  epollpri : Bool := false
  epollout : Bool := false
  epollerr : Bool := false
  epollhup : Bool := false
  epollet : Bool := false
  deriving DecidableEq, Repr

namespace Events

instance : OrOp Events where
  or a b := ⟨a.epollin || b.epollin, a.epollpri || b.epollpri, a.epollout || b.epollout, a.epollerr || b.epollerr,
    a.epollhup || b.epollhup, a.epollet || b.epollet⟩

instance : AndOp Events where
  and a b := ⟨a.epollin && b.epollin, a.epollpri && b.epollpri, a.epollout && b.epollout, a.epollerr && b.epollerr,
    a.epollhup && b.epollhup, a.epollet && b.epollet⟩

instance : Complement Events where
  complement a := ⟨!a.epollin, !a.epollpri, !a.epollout, !a.epollerr, !a.epollhup, !a.epollet⟩

/-- There is something to report. -/
def any (a : Events) : Bool := a.epollin || a.epollpri || a.epollout || a.epollerr || a.epollhup

inductive Condition where
  | readable
  | urgent
  | writable
  | error
  | hangup
  deriving DecidableEq, Repr

def has (a : Events) : Condition → Bool
  | .readable => a.epollin
  | .urgent => a.epollpri
  | .writable => a.epollout
  | .error => a.epollerr
  | .hangup => a.epollhup

variable {a b : Events} {c : Condition}

@[simp] theorem has_or : (a ||| b).has c = (a.has c || b.has c) := by cases c <;> rfl

@[simp] theorem has_and : (a &&& b).has c = (a.has c && b.has c) := by cases c <;> rfl

@[simp] theorem has_complement : (~~~a).has c = !a.has c := by cases c <;> rfl

theorem any_of_has (h : a.has c = true) : a.any = true := by
  unfold any
  cases c <;> simp only [has] at h <;> simp only [h, Bool.true_or, Bool.or_true]

end Events

open Events (Condition)

/-- A descriptor; `interest` is the mask of its registration. -/
structure Descriptor where
  conditions : Events := {}
  interest : Option Events := none
  queued : Bool := false
  deriving DecidableEq, Repr

namespace Descriptor

/-- What a report may carry: errors and hang-ups need not be asked for. -/
def wanted (d : Descriptor) : Events :=
  match d.interest with
  | some mask => mask ||| { epollerr := true, epollhup := true }
  | none => {}

def reportable (d : Descriptor) : Events := d.conditions &&& d.wanted

/-- Conditions hold from now on. -/
def becomes (d : Descriptor) (m : Events) : Descriptor :=
  { d with
    conditions := d.conditions ||| m
    queued := d.queued || (m &&& ~~~d.conditions &&& d.wanted).any }

/-- New input is there; it counts also where there was some before. -/
def arrives (d : Descriptor) (m : Events) : Descriptor :=
  { d with conditions := d.conditions ||| m, queued := d.queued || (m &&& d.wanted).any }

/-- Conditions hold no more. -/
def ceases (d : Descriptor) (m : Events) : Descriptor :=
  { d with conditions := d.conditions &&& ~~~m }

/-- `EPOLL_CTL_ADD` and `EPOLL_CTL_MOD`. -/
def register (d : Descriptor) (mask : Events) : Descriptor :=
  let d := { d with interest := some mask }
  { d with queued := d.queued || d.reportable.any }

/-- `EPOLL_CTL_DEL`, or the descriptor is closed. -/
def unregister (d : Descriptor) : Descriptor := { d with interest := none, queued := false }

def edgeTriggered (d : Descriptor) : Bool := d.interest.any (·.epollet)

/-- A queued descriptor is reported if anything holds; without `EPOLLET` it stays queued. -/
def report (d : Descriptor) : Option Events × Descriptor :=
  if d.reportable.any then (some d.reportable, { d with queued := !d.edgeTriggered })
  else (none, { d with queued := false })

/-- The condition holds and is asked for, and no report of it is to come. -/
structure Overdue (d : Descriptor) (c : Condition) : Prop where
  holds : d.conditions.has c = true
  wanted : d.wanted.has c = true
  quiet : d.queued = false

instance (d : Descriptor) (c : Condition) : Decidable (d.Overdue c) :=
  decidable_of_iff (d.conditions.has c = true ∧ d.wanted.has c = true ∧ d.queued = false)
    ⟨fun ⟨h₁, h₂, h₃⟩ => ⟨h₁, h₂, h₃⟩, fun h => ⟨h.1, h.2, h.3⟩⟩

variable {d : Descriptor} {c : Condition} {m : Events}

theorem Overdue.reportable (h : d.Overdue c) : d.reportable.has c = true := by
  unfold Descriptor.reportable
  rw [Events.has_and, h.holds, h.wanted]
  rfl

theorem Overdue.of_becomes (h : (d.becomes m).Overdue c) : d.Overdue c := by
  have hquiet := h.quiet
  have hholds := h.holds
  simp only [becomes, Bool.or_eq_false_iff] at hquiet
  simp only [becomes, Events.has_or, Bool.or_eq_true] at hholds
  refine ⟨?_, h.wanted, hquiet.1⟩
  by_contra hnot
  have hnew : (m &&& ~~~d.conditions &&& d.wanted).has c = true := by
    rw [Events.has_and, Events.has_and, Events.has_complement, hholds.resolve_left hnot,
      Bool.eq_false_iff.mpr hnot, show d.wanted.has c = true from h.wanted]
    rfl
  exact absurd (Events.any_of_has hnew) (by rw [hquiet.2]; exact Bool.false_ne_true)

theorem Overdue.of_ceases (h : (d.ceases m).Overdue c) : d.Overdue c := by
  have hholds := h.holds
  simp only [ceases, Events.has_and, Bool.and_eq_true] at hholds
  exact ⟨hholds.1, h.wanted, h.quiet⟩

theorem register_not_overdue (mask : Events) : ¬ (d.register mask).Overdue c := by
  intro h
  have hquiet := h.quiet
  simp only [register, Bool.or_eq_false_iff] at hquiet
  have hany := Events.any_of_has (Overdue.reportable h)
  exact absurd (hquiet.2.symm.trans hany) Bool.false_ne_true

theorem unregistered_not_overdue (h : d.interest = none) : ¬ d.Overdue c := by
  intro hover
  have hwanted := hover.wanted
  unfold Descriptor.wanted at hwanted
  rw [h] at hwanted
  cases c <;> exact Bool.false_ne_true hwanted

theorem Overdue.of_report (h : d.report.2.Overdue c) :
    ∃ ev, d.report.1 = some ev ∧ ev.has c = true := by
  have hcarried : d.reportable.has c = true := by
    have hafter := h.reportable
    unfold report at hafter
    split at hafter <;> exact hafter
  have hany := Events.any_of_has hcarried
  refine ⟨d.reportable, ?_, hcarried⟩
  unfold report
  rw [if_pos hany]

theorem arrives_queued (h : d.wanted.has c = true) (hm : m.has c = true) : (d.arrives m).queued = true := by
  have hnew : (m &&& d.wanted).has c = true := by rw [Events.has_and, hm, h]; rfl
  simp only [arrives, Events.any_of_has hnew, Bool.or_true]

theorem report_none (h : d.report.1 = none) : d.reportable.has c = false := by
  unfold report at h
  split at h
  · cases h
  next hnot => exact Bool.eq_false_iff.mpr fun hc => hnot (Events.any_of_has hc)

/-- An edge-triggered descriptor reports an error it has, once. -/
theorem report_error (hreg : d.interest.isSome = true) (hedge : d.edgeTriggered = true)
    (herror : d.conditions.epollerr = true) :
    d.reportable.epollerr = true ∧ d.report = (some d.reportable, { d with queued := false }) := by
  obtain ⟨mask, hmask⟩ := Option.isSome_iff_exists.mp hreg
  have hwanted : d.wanted.has .error = true := by
    unfold wanted
    rw [hmask, Events.has_or]
    exact Bool.or_true _
  have hcarried : d.reportable.has .error = true := by
    unfold reportable
    rw [Events.has_and, hwanted]
    exact (Bool.and_true _).trans herror
  refine ⟨hcarried, ?_⟩
  unfold report
  rw [if_pos (Events.any_of_has hcarried), hedge]
  rfl

end Descriptor
end Lib.Epoll
