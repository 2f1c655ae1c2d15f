import Mathlib.Data.List.Basic
import Mathlib.Order.Lattice

/-!
# The newest entry up to a bound

A history is searched from its end. Where its keys never fall, the first entry found
within a bound has the greatest key that is within it.
-/
namespace Lib.Newest

variable {α κ : Type*} [LinearOrder κ]

/-- Search from the end. -/
def newest (key : α → κ) (k : κ) (xs : List α) : Option α := xs.reverse.find? fun a => key a ≤ k

/-- The entry whose key is the greatest within the bound, and the last one with that key. -/
def IsNewest (key : α → κ) (k : κ) (xs : List α) (a : α) : Prop :=
  ∃ older newer, xs = older ++ a :: newer ∧ key a ≤ k ∧ (∀ b ∈ xs, key b ≤ k → key b ≤ key a) ∧
    ∀ b ∈ newer, key b ≠ key a

/-- The keys never fall. -/
def Rising (key : α → κ) (xs : List α) : Prop := xs.Pairwise fun a b => key a ≤ key b

section Search
variable {key : α → κ} {k : κ} {xs : List α} {a : α}

theorem newest_eq_none : newest key k xs = none ↔ ∀ b ∈ xs, k < key b := by
  simp [newest]

theorem newest_eq_some (hrising : Rising key xs) (h : newest key k xs = some a) : IsNewest key k xs a := by
  obtain ⟨hbound, newer, older, hsplit, hbeyond⟩ := List.find?_eq_some_iff_append.mp h
  have hxs : xs = older.reverse ++ a :: newer.reverse := by simpa using congrArg List.reverse hsplit
  have hle : key a ≤ k := of_decide_eq_true hbound
  have hlate : ∀ b ∈ newer.reverse, k < key b := by simpa using hbeyond
  have hearly : ∀ b ∈ older.reverse, key b ≤ key a := by
    intro b hb
    have hpairs : Rising key (older.reverse ++ a :: newer.reverse) := hxs ▸ hrising
    exact (List.pairwise_append.mp hpairs).2.2 b hb a List.mem_cons_self
  refine ⟨older.reverse, newer.reverse, hxs, hle, fun b hb hbk => ?_, fun b hb heq => ?_⟩
  · rw [hxs, List.mem_append, List.mem_cons] at hb
    rcases hb with hb | rfl | hb
    · exact hearly b hb
    · exact le_rfl
    · exact absurd (hlate b hb) (not_lt.mpr hbk)
  · exact absurd (heq ▸ hlate b hb) (not_lt.mpr hle)

end Search

end Lib.Newest
