import Mathlib.Data.List.Basic

/-!
# Wheels

A ring of slots that turns: the front slot leaves, an empty one comes in behind.
-/
namespace Lib

structure Wheel (α : Type) (n : Nat) where
  slots : List (List α)
  size_eq : slots.length = n

namespace Wheel
variable {α : Type} {n : Nat}

def empty (n : Nat) : Wheel α n := ⟨List.replicate n [], List.length_replicate⟩

/-- `a` is in slot `i`. -/
def Mem (w : Wheel α n) (i : Nat) (a : α) : Prop := ∃ slot, w.slots[i]? = some slot ∧ a ∈ slot

def front (w : Wheel α n) : List α := w.slots.headD []

def modify (w : Wheel α n) (i : Nat) (f : List α → List α) : Wheel α n :=
  ⟨w.slots.modify i f, by rw [List.length_modify, w.size_eq]⟩

def turn (w : Wheel α n) : Wheel α n :=
  ⟨(w.slots ++ [[]]).tail, by rw [List.length_tail, List.length_append, w.size_eq]; rfl⟩

theorem mem_front {w : Wheel α n} {a : α} : a ∈ w.front ↔ w.Mem 0 a := by
  obtain ⟨slots, hsize⟩ := w
  cases slots with
  | nil => exact ⟨fun h => absurd h List.not_mem_nil, fun ⟨slot, h, _⟩ => absurd h nofun⟩
  | cons slot slots => exact ⟨fun h => ⟨slot, rfl, h⟩, fun ⟨_, h, ha⟩ => Option.some.inj h ▸ ha⟩

theorem mem_turn {w : Wheel α n} {i : Nat} {a : α} : w.turn.Mem i a ↔ w.Mem (i + 1) a := by
  change (∃ slot, (w.slots ++ [[]]).tail[i]? = some slot ∧ a ∈ slot) ↔ _
  rw [List.getElem?_tail]
  constructor
  · rintro ⟨slot, hslot, ha⟩
    by_cases hi : i + 1 < w.slots.length
    · rw [List.getElem?_append_left hi] at hslot
      exact ⟨slot, hslot, ha⟩
    · rw [List.getElem?_append_right (Nat.not_lt.mp hi)] at hslot
      obtain rfl := List.mem_singleton.mp (List.mem_of_getElem? hslot)
      exact absurd ha List.not_mem_nil
  · rintro ⟨slot, hslot, ha⟩
    refine ⟨slot, ?_, ha⟩
    rw [List.getElem?_append_left (List.getElem?_eq_some_iff.mp hslot).1]
    exact hslot

/-- Adding `x` to a slot. -/
theorem mem_modify {w : Wheel α n} {i j : Nat} {a x : α} {f : List α → List α} (hi : i < n)
    (hf : ∀ slot, a ∈ f slot ↔ a ∈ slot ∨ a = x) : (w.modify i f).Mem j a ↔ w.Mem j a ∨
    (j = i ∧ a = x) := by
  change (∃ slot, (w.slots.modify i f)[j]? = some slot ∧ a ∈ slot) ↔ _
  rw [List.getElem?_modify]
  by_cases hij : i = j
  · subst hij
    obtain ⟨slot, hslot⟩ : ∃ slot, w.slots[i]? = some slot :=
      ⟨_, List.getElem?_eq_getElem (by rw [w.size_eq]; exact hi)⟩
    unfold Mem
    rw [hslot]
    simp only [if_true, Option.map_eq_map, Option.map_some, Option.some.injEq, exists_eq_left',
      true_and]
    exact hf slot
  · unfold Mem
    have hji : j ≠ i := fun h => hij h.symm
    cases w.slots[j]? <;> simp [hij, hji]

end Wheel
end Lib
