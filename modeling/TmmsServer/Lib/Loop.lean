import Mathlib.Logic.Basic

/-!
# Loops that return from within

A loop without a condition of its own: each pass goes on with another state or
returns. Whether it returns, and with what, from an invariant and a measure.
-/
namespace Lib

inductive Pass (σ τ : Type) where
  | next (s : σ)
  | done (t : τ)

namespace Loop
variable {σ τ : Type} (pass : σ → Pass σ τ)

/-- What the loop returns within `n` passes. -/
def within : Nat → σ → Option τ
  | 0, _ => none
  | n + 1, s =>
      match pass s with
      | .next s' => within n s'
      | .done t => some t

/-- The loop returns `t`, after some number of passes. -/
def Returns (s : σ) (t : τ) : Prop := ∃ n, within pass n s = some t

variable {pass} {s s' : σ} {t : τ} {I : σ → Prop}

theorem returns_done (h : pass s = .done t) : Returns pass s t := by
  refine ⟨1, ?_⟩
  rw [within, h]

theorem returns_next (h : pass s = .next s') : Returns pass s t ↔ Returns pass s' t := by
  constructor
  · rintro ⟨n, hn⟩
    cases n with
    | zero => exact absurd hn nofun
    | succ n =>
        rw [within, h] at hn
        exact ⟨n, hn⟩
  · rintro ⟨n, hn⟩
    refine ⟨n + 1, ?_⟩
    rw [within, h]
    exact hn

/-- What holds at every return, by an invariant of the passes. -/
theorem Returns.post {Q : τ → Prop} (hr : Returns pass s t) (h : I s)
    (hnext : ∀ s s', I s → pass s = .next s' → I s') (hdone : ∀ s t, I s → pass s = .done t → Q t) : Q t := by
  obtain ⟨n, hn⟩ := hr
  induction n generalizing s with
  | zero => exact absurd hn nofun
  | succ n ih =>
      rw [within] at hn
      cases hpass : pass s with
      | next s' =>
          rw [hpass] at hn
          exact ih (hnext s s' h hpass) hn
      | done t' =>
          rw [hpass] at hn
          obtain rfl := Option.some.inj hn
          exact hdone s t' h hpass

/-- A loop returns where its passes have something to use up, and by then. -/
theorem within_of_measure (measure : σ → Nat) {n : Nat} (hn : measure s < n) (h : I s)
    (hnext : ∀ s s', I s → pass s = .next s' → I s' ∧ measure s' < measure s) : ∃ t, within pass n s = some t := by
  induction n generalizing s with
  | zero => exact absurd hn (Nat.not_lt_zero _)
  | succ n ih =>
      rw [within]
      cases hpass : pass s with
      | next s' =>
          obtain ⟨h', hless⟩ := hnext s s' h hpass
          exact ih (by omega) h'
      | done t => exact ⟨t, rfl⟩

theorem returns_of_measure (measure : σ → Nat) (h : I s)
    (hnext : ∀ s s', I s → pass s = .next s' → I s' ∧ measure s' < measure s) : ∃ t, Returns pass s t := by
  obtain ⟨t, ht⟩ := within_of_measure measure (Nat.lt_succ_self _) h hnext
  exact ⟨t, _, ht⟩

/-- A loop whose passes all go on does not return. -/
theorem not_returns (h : I s) (hnext : ∀ s, I s → ∃ s', pass s = .next s' ∧ I s') : ¬ Returns pass s t := by
  intro hr
  refine hr.post (Q := fun _ => False) h (fun s s' hs hpass => ?_) fun s t hs hpass => ?_
  · obtain ⟨s'', hpass', hs''⟩ := hnext s hs
    rw [hpass] at hpass'
    obtain rfl := Pass.next.inj hpass'
    exact hs''
  · obtain ⟨s', hpass', -⟩ := hnext s hs
    exact absurd (hpass.symm.trans hpass') nofun

end Loop
end Lib
