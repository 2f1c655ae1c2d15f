import Mathlib.Logic.Relation
import Mathlib.Order.WellFounded

/-!
# Locks and the threads that wait for them

Threads hold resources and want one at a time. Where a thread that holds a resource
wants only higher ones, whoever waits, waits in the end for a thread that wants
nothing taken; where each of a set of threads wants what another of the set holds,
none of them goes on again.
-/
namespace Lib.LockOrder

section Order
variable {τ ρ κ : Type*} (holder : ρ → Option τ) (wants : τ → Option ρ)

/-- The thread wants what the other one holds. -/
def WaitsFor (t t' : τ) : Prop := ∃ r, wants t = some r ∧ holder r = some t'

/-- The thread wants nothing that is held. -/
def Free (t : τ) : Prop := ∀ t', ¬ WaitsFor holder wants t t'

variable {holder wants}

/-- Lock ordering leaves a thread free at the end of every chain of waiting threads. -/
theorem exists_free [Preorder κ] [WellFoundedGT κ] (rank : ρ → κ)
    (horder : ∀ t r r', holder r = some t → wants t = some r' → rank r < rank r') (t : τ) :
    ∃ t', Relation.ReflTransGen (WaitsFor holder wants) t t' ∧ Free holder wants t' := by
  have hheld : ∀ r t, holder r = some t →
      ∃ t', Relation.ReflTransGen (WaitsFor holder wants) t t' ∧ Free holder wants t' := by
    intro r
    induction h : rank r using WellFoundedGT.induction generalizing r with
    | ind k ih =>
        intro t ht
        by_cases hfree : Free holder wants t
        · exact ⟨t, .refl, hfree⟩
        · obtain ⟨t₁, r₁, hwants, hholder⟩ := not_forall_not.mp hfree
          obtain ⟨t', hpath, hfree'⟩ := ih (rank r₁) (h ▸ horder t r r₁ ht hwants) r₁ rfl t₁ hholder
          exact ⟨t', .head ⟨r₁, hwants, hholder⟩ hpath, hfree'⟩
  by_cases hfree : Free holder wants t
  · exact ⟨t, .refl, hfree⟩
  · obtain ⟨t₁, r₁, hwants, hholder⟩ := not_forall_not.mp hfree
    obtain ⟨t', hpath, hfree'⟩ := hheld r₁ t₁ hholder
    exact ⟨t', .head ⟨r₁, hwants, hholder⟩ hpath, hfree'⟩

end Order

section Deadlock
variable {σ τ ρ : Type*} (holder : σ → ρ → Option τ) (wants : σ → τ → Option ρ) (move : σ → τ → σ → Prop)

/-- How threads move: none that wants what is held, and a move of one neither takes from another what it
holds nor changes what it wants. -/
structure Locking : Prop where
  blocked : ∀ s t s' r t', move s t s' → wants s t = some r → holder s r ≠ some t'
  keeps : ∀ s t s' r t', move s t s' → t' ≠ t → holder s r = some t' → holder s' r = some t'
  others : ∀ s t s' t', move s t s' → t' ≠ t → wants s' t' = wants s t'

/-- Each of the threads wants what one of them holds. -/
def Deadlocked (s : σ) (stuck : Set τ) : Prop :=
  ∀ t ∈ stuck, ∃ t' ∈ stuck, WaitsFor (holder s) (wants s) t t'

variable {holder wants move}

theorem Deadlocked.not_move (hlocking : Locking holder wants move) {s s' : σ} {stuck : Set τ} {t : τ}
    (h : Deadlocked holder wants s stuck) (ht : t ∈ stuck) : ¬ move s t s' := by
  intro hmove
  obtain ⟨t', -, r, hwants, hholder⟩ := h t ht
  exact hlocking.blocked s t s' r t' hmove hwants hholder

/-- A deadlock lasts. -/
theorem Deadlocked.lasts (hlocking : Locking holder wants move) {s s' : σ} {stuck : Set τ} {t : τ}
    (h : Deadlocked holder wants s stuck) (hmove : move s t s') : Deadlocked holder wants s' stuck := by
  have hother : ∀ u ∈ stuck, u ≠ t := by
    rintro u hu rfl
    exact h.not_move hlocking hu hmove
  intro u hu
  obtain ⟨u', hu', r, hwants, hholder⟩ := h u hu
  refine ⟨u', hu', r, ?_, hlocking.keeps s t s' r u' hmove (hother u' hu') hholder⟩
  rw [hlocking.others s t s' u hmove (hother u hu)]
  exact hwants

end Deadlock
end Lib.LockOrder
