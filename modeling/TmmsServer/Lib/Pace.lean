import Mathlib.Data.List.Chain

/-!
# Paced clocks

A clock that follows the readings of another one: it goes on by the difference of
the last two readings, or by a default where they are too far apart, and never
below zero.
-/
namespace Lib

/-- The bound on a step, and the step in place of one that is too large. -/
structure Pace where
  max : Int
  default : Int
  default_nonneg : 0 ≤ default
  default_lt : default < max

namespace Pace
variable (p : Pace)

def Fine (delta : Int) : Prop := -p.max < delta ∧ delta < p.max

instance : DecidablePred p.Fine := fun _ => instDecidableAnd

/-- The difference of two readings, or the default. -/
def step (delta : Int) : Int := if p.Fine delta then delta else p.default

/-- The corrected time behind `corrected`, for readings that differ by `delta`. -/
def advance (corrected delta : Int) : Int :=
  let corrected := corrected + p.step delta
  if corrected < 0 then 0 else corrected

/-- How far the corrected time is from a reading, where it was `moved` away from the last one. -/
def move (moved last time : Int) : Int :=
  if p.Fine (time - last) then Max.max moved (-time) else moved + (last + p.default - time)

/-- The corrected times of a row of readings, from a reading and its corrected time on. -/
def follow : Int → Int → List Int → List Int
  | _, _, [] => []
  | original, corrected, time :: times =>
      let corrected := p.advance corrected (time - original)
      corrected :: follow time corrected times

variable {p} {original corrected delta time : Int} {times : List Int}

theorem step_fine : p.Fine (p.step delta) := by
  unfold step
  split
  next hfine => exact hfine
  next =>
    have hpos := p.default_nonneg
    have hlt := p.default_lt
    exact ⟨by omega, hlt⟩

theorem advance_nonneg : 0 ≤ p.advance corrected delta := by
  unfold advance
  dsimp only
  split
  · exact Int.le_refl 0
  next h => exact Int.not_lt.mp h

theorem advance_fine (h : 0 ≤ corrected) : p.Fine (p.advance corrected delta - corrected) := by
  obtain ⟨hlow, hhigh⟩ : p.Fine (p.step delta) := step_fine
  unfold advance
  dsimp only
  split
  · -- down to zero is less than the step
    exact ⟨by omega, by omega⟩
  · exact ⟨by omega, by omega⟩

theorem advance_exact (hfine : p.Fine (time - original)) (htime : 0 ≤ time) :
    p.advance original (time - original) = time := by
  have hsum : original + (time - original) = time := by omega
  unfold advance step
  rw [if_pos hfine, hsum]
  exact if_neg (Int.not_lt.mpr htime)

theorem advance_lt (h : 0 ≤ corrected) : p.advance corrected delta < corrected + p.max := by
  obtain ⟨-, hlt⟩ : p.Fine (p.advance corrected delta - corrected) := advance_fine h
  omega

theorem advance_near (hfine : p.Fine delta) : p.advance corrected delta = Max.max 0 (corrected + delta) := by
  unfold advance step
  rw [if_pos hfine]
  dsimp only
  split
  next h => exact (Int.max_eq_left (Int.le_of_lt h)).symm
  next h => exact (Int.max_eq_right (Int.not_lt.mp h)).symm

theorem advance_far (hfar : ¬ p.Fine delta) (h : 0 ≤ corrected) :
    p.advance corrected delta = corrected + p.default := by
  have hpos := p.default_nonneg
  unfold advance step
  rw [if_neg hfar]
  exact if_neg (by omega)

theorem advance_move {moved last : Int} (h : 0 ≤ last + moved) :
    p.advance (last + moved) (time - last) = time + p.move moved last time := by
  unfold move
  split
  next hfine =>
    rw [advance_near hfine]
    omega
  next hfar =>
    rw [advance_far hfar h]
    omega

theorem move_still (htime : 0 ≤ time) (hfine : p.Fine (time - original)) : p.move 0 original time = 0 := by
  unfold move
  rw [if_pos hfine]
  omega

theorem follow_chain (h : 0 ≤ corrected) :
    (corrected :: p.follow original corrected times).IsChain fun a b => p.Fine (b - a) := by
  induction times generalizing original corrected with
  | nil => exact .singleton _
  | cons time times ih => exact List.isChain_cons_cons.mpr ⟨advance_fine h, ih advance_nonneg⟩

theorem follow_exact (hchain : (original :: times).IsChain fun a b => p.Fine (b - a))
    (htimes : ∀ t ∈ times, 0 ≤ t) : p.follow original original times = times := by
  induction times generalizing original with
  | nil => rfl
  | cons time times ih =>
      obtain ⟨hfine, hchain⟩ := List.isChain_cons_cons.mp hchain
      rw [follow, advance_exact hfine (htimes time List.mem_cons_self),
        ih hchain fun t ht => htimes t (List.mem_cons_of_mem _ ht)]

end Pace
end Lib
