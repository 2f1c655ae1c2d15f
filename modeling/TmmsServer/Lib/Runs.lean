import Mathlib.Data.List.Basic

/-!
# Runs of a partial step function

A system is a function that says what becomes of a state under an action, and is
`none` where the action is not possible.
-/
namespace Lib.Runs

variable {σ α : Type*} (step : σ → α → Option σ)

/-- The actions one after the other. -/
def run (s : σ) : List α → Option σ
  | [] => some s
  | a :: as => (step s a).bind fun s => run s as

variable {step} {s s' : σ} {a : α} {as bs : List α}

@[simp] theorem run_nil : run step s [] = some s := rfl

theorem run_cons_iff : run step s (a :: as) = some s' ↔ ∃ t, step s a = some t ∧ run step t as = some s' :=
  Option.bind_eq_some_iff

theorem run_append : run step s (as ++ bs) = (run step s as).bind fun t => run step t bs := by
  induction as generalizing s with
  | nil => rfl
  | cons a as ih =>
      change (step s a).bind _ = ((step s a).bind _).bind _
      rw [Option.bind_assoc]
      congr 1
      funext t
      exact ih

theorem run_trans {t : σ} (h : run step s as = some t) (h' : run step t bs = some s') :
    run step s (as ++ bs) = some s' := by
  rw [run_append, h, Option.bind_some, h']

theorem run_concat_iff : run step s (as ++ [a]) = some s' ↔ ∃ t, run step s as = some t ∧ step t a = some s' := by
  rw [run_append, Option.bind_eq_some_iff]
  simp only [run_cons_iff, run_nil, Option.some.injEq, exists_eq_right]

/-- What every step keeps, a run keeps. -/
theorem run_invariant {I : σ → Prop} (hstep : ∀ s a s', I s → step s a = some s' → I s') (h : I s)
    (hrun : run step s as = some s') : I s' := by
  induction as generalizing s with
  | nil =>
      cases hrun
      exact h
  | cons a as ih =>
      obtain ⟨t, ht, hrest⟩ := run_cons_iff.mp hrun
      exact ih (hstep s a t h ht) hrest

/-- The same where the actions have a property the step needs. -/
theorem run_invariant_of {P : α → Prop} {I : σ → Prop}
    (hstep : ∀ s a s', P a → I s → step s a = some s' → I s') (h : I s)
    (hactions : ∀ a ∈ as, P a) (hrun : run step s as = some s') : I s' := by
  induction as generalizing s with
  | nil =>
      cases hrun
      exact h
  | cons a as ih =>
      obtain ⟨t, ht, hrest⟩ := run_cons_iff.mp hrun
      exact ih (hstep s a t (hactions a List.mem_cons_self) h ht)
        (fun b hb => hactions b (List.mem_cons_of_mem a hb)) hrest

end Lib.Runs
