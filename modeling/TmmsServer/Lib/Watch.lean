import TmmsServer.Lib.Epoll

/-!
# A descriptor and the thread that serves it

The thread waits, has a report to handle, or is in a loop that takes input until there
is none. Between any two of its steps input may come.
-/
namespace Lib.Epoll

/-- One registered descriptor; `reported` is handled next, and `reading` is set in the loop of its handler. -/
structure Watch where
  fd : Descriptor
  reported : Option Events := none
  reading : Bool := false
  deriving DecidableEq, Repr

namespace Watch

def arrives (w : Watch) (m : Events) : Watch := { w with fd := w.fd.arrives m }

/-- `epoll_wait`; without `some` it does not come back for this descriptor. -/
def wait (w : Watch) : Option Watch :=
  if w.fd.queued ∧ w.reported = none ∧ w.reading = false then
    some { w with reported := w.fd.report.1, fd := w.fd.report.2 }
  else none

/-- The handler begins to read. -/
def enter (w : Watch) : Watch := { w with reported := none, reading := true }

/-- The handler does nothing. -/
def skip (w : Watch) : Watch := { w with reported := none }

/-- Input was taken; `last` tells that there is no more. -/
def took (w : Watch) (last : Bool) : Watch :=
  if last then { w with fd := w.fd.ceases { epollin := true } } else w

def leave (w : Watch) : Watch := { w with reading := false }

/-- The thread waits, and nothing is going to wake it. -/
def idle (w : Watch) : Bool := !w.fd.queued && w.reported.isNone && !w.reading

variable {w w' : Watch}

theorem arrives_not_idle {m : Events} {c : Events.Condition} (h : w.fd.wanted.has c = true) (hm : m.has c = true) :
    (w.arrives m).idle = false := by
  have hqueued : (w.arrives m).fd.queued = true := Descriptor.arrives_queued h hm
  simp [idle, hqueued]

theorem enter_not_idle (w : Watch) : w.enter.idle = false := by simp [idle, enter]

theorem took_not_idle (h : w.reading = true) (last : Bool) : (w.took last).idle = false := by
  have hreading : (w.took last).reading = true := by
    cases last
    · exact h
    · exact h
  simp [idle, hreading]

@[simp] theorem took_interest (w : Watch) (last : Bool) : (w.took last).fd.interest = w.fd.interest := by
  cases last <;> rfl

/-- A thread that waits again although it was woken has nothing to do. -/
theorem wait_idle {c : Events.Condition} (hwait : w.wait = some w') (hwanted : w.fd.wanted.has c = true)
    (hidle : w'.idle = true) : w.fd.conditions.has c = false := by
  obtain ⟨-, hw'⟩ := Option.ite_none_right_eq_some.mp hwait
  cases hw'
  have hnone : w.fd.report.1 = none := by
    simp [idle] at hidle
    exact hidle.1.2
  have hcarried := Descriptor.report_none (c := c) hnone
  rw [Descriptor.reportable, Events.has_and, hwanted, Bool.and_true] at hcarried
  exact hcarried

theorem wait_fd (hwait : w.wait = some w') :
    w'.fd.conditions = w.fd.conditions ∧ w'.fd.interest = w.fd.interest ∧ w'.reading = w.reading := by
  obtain ⟨-, hw'⟩ := Option.ite_none_right_eq_some.mp hwait
  cases hw'
  unfold Descriptor.report
  split <;> exact ⟨rfl, rfl, rfl⟩

theorem wait_reported {ev : Events} (hwait : w.wait = some w') (hreported : w'.reported = some ev) :
    ev = w.fd.reportable ∧ ev.any = true := by
  obtain ⟨-, hw'⟩ := Option.ite_none_right_eq_some.mp hwait
  cases hw'
  dsimp only at hreported
  unfold Descriptor.report at hreported
  split at hreported
  next hany =>
    cases hreported
    exact ⟨rfl, hany⟩
  next => cases hreported

theorem wait_queued (hwait : w.wait = some w') (hedge : w.fd.edgeTriggered = true) : w'.fd.queued = false := by
  obtain ⟨-, hw'⟩ := Option.ite_none_right_eq_some.mp hwait
  cases hw'
  unfold Descriptor.report
  split
  · exact congrArg (!·) hedge
  · rfl

end Watch
end Lib.Epoll
