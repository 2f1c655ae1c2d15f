import Mathlib.Data.Finset.Basic
import Mathlib.Logic.Function.Basic

/-!
# Registries

A table of records, some of them live, kept together with the set of the live ones
and an index from their keys. A record is added under an unused key, retired with
its entry, or changed where that does not matter to either.
-/
namespace Lib.Registry
variable {ι κ ε ρ : Type} [DecidableEq ι] [DecidableEq κ]
  {table : ι → Option ρ} {i : ι} {r r' : ρ}

theorem update_some {j : ι} {q : ρ} :
    Function.update table i (some r) j = some q ↔ j = i ∧ r = q ∨ j ≠ i ∧ table j = some q := by
  rw [Function.update_apply, ite_eq_iff, Option.some.injEq]

theorem forall_update {P : ι → ρ → Prop} (h : ∀ j q, table j = some q → P j q) (hr : P i r) :
    ∀ j q, Function.update table i (some r) j = some q → P j q := by
  refine (Function.forall_update_iff table fun j found => ∀ q, found = some q → P j q).mpr ⟨?_, ?_⟩
  · intro q hq
    rwa [← Option.some.inj hq]
  · exact fun j _ => h j

theorem exists_update {P : ρ → Prop} (j : ι) :
    (∃ q, Function.update table i (some r) j = some q ∧ P q) ↔
      j = i ∧ P r ∨ j ≠ i ∧ ∃ q, table j = some q ∧ P q := by
  constructor
  · rintro ⟨q, hq, hP⟩
    rcases update_some.mp hq with ⟨hj, rfl⟩ | ⟨hj, hold⟩
    · exact .inl ⟨hj, hP⟩
    · exact .inr ⟨hj, q, hold, hP⟩
  · rintro (⟨rfl, hP⟩ | ⟨hj, q, hold, hP⟩)
    · exact ⟨r, Function.update_self _ _ _, hP⟩
    · exact ⟨q, update_some.mpr (.inr ⟨hj, hold⟩), hP⟩

/-! ## The set of the live records -/

def Lists (live : ρ → Prop) (table : ι → Option ρ) (listed : Finset ι) : Prop :=
  ∀ j, j ∈ listed ↔ ∃ q, table j = some q ∧ live q

section Lists
variable {live : ρ → Prop} {listed : Finset ι}

theorem Lists.add (h : Lists live table listed) (hr : live r) :
    Lists live (Function.update table i (some r)) (insert i listed) := by
  intro j
  rw [exists_update, Finset.mem_insert, h]
  by_cases hj : j = i
  · exact iff_of_true (.inl hj) (.inl ⟨hj, hr⟩)
  · exact ⟨fun h => .inr ⟨hj, h.resolve_left hj⟩, fun h => .inr (h.resolve_left fun h => hj h.1).2⟩

theorem Lists.retire (h : Lists live table listed) (hr : ¬ live r) :
    Lists live (Function.update table i (some r)) (listed.erase i) := by
  intro j
  rw [exists_update, Finset.mem_erase, h]
  exact ⟨.inr, fun h => h.resolve_left fun h => hr h.2⟩

theorem Lists.change (h : Lists live table listed) (hi : table i = some r) (hr : live r' ↔ live r) :
    Lists live (Function.update table i (some r')) listed := by
  intro j
  rw [exists_update, h]
  by_cases hj : j = i
  · subst hj
    rw [hi]
    constructor
    · rintro ⟨q, hq, hlive⟩
      obtain rfl := Option.some.inj hq
      exact .inl ⟨rfl, hr.mpr hlive⟩
    · exact fun h => ⟨r, rfl, hr.mp (h.resolve_right fun h => h.1 rfl).2⟩
  · exact ⟨fun h => .inr ⟨hj, h⟩, fun h => (h.resolve_left fun h => hj h.1).2⟩

end Lists

/-! ## The index of the live records -/

/-- Each live record has its place entered under its key, and no other entry refers to a record. -/
def Indexes (ref : ι → ε) (key : ρ → κ) (live : ρ → Prop) (table : ι → Option ρ)
    (index : κ → Option ε) : Prop :=
  ∀ k j, index k = some (ref j) ↔ ∃ q, table j = some q ∧ live q ∧ key q = k

section Indexes
variable {ref : ι → ε} {key : ρ → κ} {live : ρ → Prop} {index : κ → Option ε}

theorem Indexes.add (h : Indexes ref key live table index) (href : Function.Injective ref)
    (hi : table i = none) (hk : index (key r) = none) (hr : live r) :
    Indexes ref key live (Function.update table i (some r))
      (Function.update index (key r) (some (ref i))) := by
  intro k j
  rw [exists_update, ← h]
  by_cases hkey : k = key r
  · subst hkey
    rw [Function.update_self, hk]
    constructor
    · exact fun h => .inl ⟨(href (Option.some.inj h)).symm, hr, rfl⟩
    · rintro (⟨rfl, -⟩ | ⟨-, hnone⟩)
      · rfl
      · exact absurd hnone nofun
  · rw [Function.update_of_ne hkey]
    constructor
    · intro hold
      refine .inr ⟨?_, hold⟩
      rintro rfl
      obtain ⟨q, hq, -⟩ := (h k j).mp hold
      exact absurd (hi.symm.trans hq) nofun
    · rintro (⟨-, -, hkey'⟩ | ⟨-, hold⟩)
      · exact absurd hkey'.symm hkey
      · exact hold

theorem Indexes.retire (h : Indexes ref key live table index) (href : Function.Injective ref)
    (hi : table i = some r) (hr : live r) (hr' : ¬ live r') :
    Indexes ref key live (Function.update table i (some r'))
      (Function.update index (key r) none) := by
  have hentry : index (key r) = some (ref i) := (h _ i).mpr ⟨r, hi, hr, rfl⟩
  intro k j
  rw [exists_update, ← h]
  by_cases hkey : k = key r
  · subst hkey
    rw [Function.update_self, hentry]
    refine iff_of_false nofun ?_
    rintro (⟨-, hlive, -⟩ | ⟨hj, hold⟩)
    · exact hr' hlive
    · exact hj (href (Option.some.inj hold)).symm
  · rw [Function.update_of_ne hkey]
    constructor
    · intro hold
      refine .inr ⟨?_, hold⟩
      rintro rfl
      obtain ⟨q, hq, -, hkey'⟩ := (h k j).mp hold
      obtain rfl := Option.some.inj (hi.symm.trans hq)
      exact hkey hkey'.symm
    · exact fun h => (h.resolve_left fun h => hr' h.2.1).2

omit [DecidableEq κ] in
theorem Indexes.change (h : Indexes ref key live table index) (hi : table i = some r)
    (hr : ¬ live r)
    (hr' : ¬ live r') : Indexes ref key live (Function.update table i (some r')) index := by
  intro k j
  rw [exists_update, ← h]
  constructor
  · intro hold
    refine .inr ⟨?_, hold⟩
    rintro rfl
    obtain ⟨q, hq, hlive, -⟩ := (h k j).mp hold
    obtain rfl := Option.some.inj (hi.symm.trans hq)
    exact hr hlive
  · exact fun h => (h.resolve_left fun h => hr' h.2.1).2

omit [DecidableEq ι] in
theorem Indexes.other (h : Indexes ref key live table index) {k : κ} {e : Option ε}
    (hold : ∀ j, index k ≠ some (ref j)) (hnew : ∀ j, e ≠ some (ref j)) :
    Indexes ref key live table (Function.update index k e) := by
  intro k' j
  rw [← h]
  by_cases hk : k' = k
  · subst hk
    rw [Function.update_self]
    exact iff_of_false (hnew j) (hold j)
  · rw [Function.update_of_ne hk]

end Indexes

/-! ## The keys that are taken -/

def Within (index : κ → Option ε) (taken : Finset κ) : Prop := ∀ k, index k ≠ none → k ∈ taken

section Within
variable {index : κ → Option ε} {taken : Finset κ}

omit [DecidableEq κ] in
theorem Within.none_of_free (h : Within index taken) {k : κ} (hk : k ∉ taken) : index k = none := by
  by_contra hsome
  exact hk (h k hsome)

theorem Within.add (h : Within index taken) (k : κ) (e : Option ε) :
    Within (Function.update index k e) (insert k taken) := by
  intro k' hk'
  by_cases hk : k' = k
  · exact Finset.mem_insert.mpr (.inl hk)
  · rw [Function.update_of_ne hk] at hk'
    exact Finset.mem_insert_of_mem (h k' hk')

theorem Within.remove (h : Within index taken) (k : κ) :
    Within (Function.update index k none) taken := by
  intro k' hk'
  by_cases hk : k' = k
  · subst hk
    exact absurd (Function.update_self _ _ _) hk'
  · rw [Function.update_of_ne hk] at hk'
    exact h k' hk'

theorem Within.release (h : Within index taken) {k : κ} (hk : index k = none) :
    Within index (taken.erase k) := by
  intro k' hk'
  refine Finset.mem_erase.mpr ⟨?_, h k' hk'⟩
  rintro rfl
  exact hk' hk

end Within
end Lib.Registry
