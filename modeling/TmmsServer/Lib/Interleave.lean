import Mathlib.Data.List.Basic

/-!
# Interleaved streams

A machine that takes items of several streams, and keeps a part of its state for
each. Where a step looks at the part of its own stream and at what all share, and
leaves the other parts alone, the items of one stream give alone what they give
among the others.
-/
namespace Lib.Interleave
variable {σ ι κ τ ρ β : Type} (take : σ → ι → σ → List β → Prop) (key : ι → κ)

/-- A row of items taken one after the other; each output is noted with the stream of its item. -/
inductive Run : σ → List ι → σ → List (κ × β) → Prop
  | nil (s : σ) : Run s [] s []
  | cons {s s₁ s₂ : σ} {i : ι} {items : List ι} {o : List β} {os : List (κ × β)} :
      take s i s₁ o → Run s₁ items s₂ os → Run s (i :: items) s₂ (o.map (key i, ·) ++ os)

/-- What a step reads and writes: `view` is the part of a stream, `shared` what all of them read,
which a step with quiet outputs leaves alone. -/
structure Independent (view : σ → κ → τ) (shared : σ → ρ) (Quiet : β → Prop) : Prop where
  frame : ∀ {s i s' o k}, take s i s' o → k ≠ key i → view s' k = view s k
  keeps : ∀ {s i s' o}, take s i s' o → (∀ b ∈ o, Quiet b) → shared s' = shared s
  transfer : ∀ {s i s' o t}, take s i s' o → view t (key i) = view s (key i) → shared t = shared s →
    ∃ t', take t i t' o ∧ view t' (key i) = view s' (key i)

variable {take key} {view : σ → κ → τ} {shared : σ → ρ} {Quiet : β → Prop}

/-- An invariant of the steps holds along a run, and so does what a step says of its outputs. -/
theorem Run.invariant {Inv : σ → Prop} {Post : κ → β → Prop}
    (hstep : ∀ {s i s' o}, Inv s → take s i s' o → Inv s' ∧ ∀ b ∈ o, Post (key i) b) {s s' : σ}
    {items : List ι}
    {os : List (κ × β)} (hs : Inv s) (hrun : Run take key s items s' os) : Inv s' ∧
    ∀ b ∈ os, Post b.1 b.2 := by
  induction hrun with
  | nil s => exact ⟨hs, fun b hb => absurd hb List.not_mem_nil⟩
  | @cons s s₁ s₂ i items o os htake _ ih =>
      obtain ⟨h₁, hposts⟩ := hstep hs htake
      obtain ⟨h₂, hrest⟩ := ih h₁
      refine ⟨h₂, fun b hb => ?_⟩
      rcases List.mem_append.mp hb with hb | hb
      · obtain ⟨b', hb', rfl⟩ := List.mem_map.mp hb
        exact hposts b' hb'
      · exact hrest b hb

/-- The items of one stream alone: the run goes through, with the same outputs of the stream. -/
theorem Independent.project [DecidableEq κ] (hind : Independent take key view shared Quiet) (k : κ) {s s' t : σ}
    {items : List ι} {os : List (κ × β)} (hrun : Run take key s items s' os)
    (hquiet : ∀ b ∈ os, Quiet b.2)
    (hview : view t k = view s k) (hshared : shared t = shared s) :
    ∃ t', Run take key t (items.filter (key · = k)) t' (os.filter (·.1 = k)) ∧
      view t' k = view s' k ∧
      shared t' = shared s' := by
  induction hrun generalizing t with
  | nil s => exact ⟨t, .nil t, hview, hshared⟩
  | @cons s s₁ s₂ i items o os htake _ ih =>
      have hmine : ∀ b ∈ o, Quiet b := fun b hb =>
        hquiet (key i, b) (List.mem_append_left _ (List.mem_map_of_mem hb))
      have hrest : ∀ b ∈ os, Quiet b.2 := fun b hb => hquiet b (List.mem_append_right _ hb)
      have hkeep := hind.keeps htake hmine
      by_cases hk : key i = k
      · subst hk
        obtain ⟨t₁, htake', hview'⟩ := hind.transfer htake hview hshared
        have hkeep' := hind.keeps htake' hmine
        obtain ⟨t₂, hrun, hlast⟩ := ih hrest hview' (by rw [hkeep', hkeep, hshared])
        refine ⟨t₂, ?_, hlast⟩
        have hall : (o.map (key i, ·)).filter (·.1 = key i) = o.map (key i, ·) := by
          rw [List.filter_eq_self]
          intro b hb
          obtain ⟨b', -, rfl⟩ := List.mem_map.mp hb
          exact decide_eq_true rfl
        have hitem : decide (key i = key i) = true := decide_eq_true rfl
        rw [List.filter_cons_of_pos (p := fun i' => key i' = key i) hitem, List.filter_append, hall]
        exact .cons htake' hrun
      · obtain ⟨t₂, hrun, hlast⟩ := ih (t := t) hrest (by rw [hview, hind.frame htake (Ne.symm hk)])
          (by rw [hshared, hkeep])
        refine ⟨t₂, ?_, hlast⟩
        have hnone : (o.map (key i, ·)).filter (·.1 = k) = [] := by
          rw [List.filter_eq_nil_iff]
          intro b hb
          obtain ⟨b', -, rfl⟩ := List.mem_map.mp hb
          exact fun h => hk (of_decide_eq_true h)
        have hitem : ¬ decide (key i = k) = true := fun h => hk (of_decide_eq_true h)
        rw [List.filter_cons_of_neg (p := fun i' => key i' = k) hitem, List.filter_append, hnone,
          List.nil_append]
        exact hrun

end Lib.Interleave
