import Mathlib.Algebra.GroupWithZero.Nat
import Mathlib.Data.List.Forall2

/-!
# Gather lists

A list of memory regions that is written out piece by piece: what a short write
takes off the front, and what is left. Memory itself stays abstract, a relation
between a region and the bytes it holds that may be split anywhere.
-/
namespace Lib.Gather

/-- Addresses that can be moved forward. -/
class Pointer (α : Type) where
  advance : α → Nat → α

open Pointer

structure Region (α : Type) where
  base : α
  len : Nat
  deriving DecidableEq, Repr

variable {α β : Type} [Pointer α]

/-- The number of elements a gather list offers. -/
def offered (vs : List (Region α)) : Nat := (vs.map Region.len).sum

/-- The regions of the first `n` elements. -/
def takeFront : Nat → List (Region α) → List (Region α)
  | 0, _ => []
  | _, [] => []
  | n + 1, v :: vs =>
      if n + 1 < v.len then [⟨v.base, n + 1⟩] else v :: takeFront (n + 1 - v.len) vs

/-- What is left when `n` elements are written: whole regions leave the list, the next one is shortened. -/
def dropFront : Nat → List (Region α) → List (Region α)
  | 0, vs => vs
  | _, [] => []
  | n + 1, v :: vs =>
      if n + 1 < v.len then ⟨advance v.base (n + 1), v.len - (n + 1)⟩ :: vs
      else dropFront (n + 1 - v.len) vs

/-- A memory: what a region holds, such that a part of a region holds the part of it. -/
structure Holding (R : Region α → List β → Prop) : Prop where
  length : ∀ {v bs}, R v bs → bs.length = v.len
  front : ∀ {v bs n}, R v bs → n ≤ v.len → R ⟨v.base, n⟩ (bs.take n)
  back : ∀ {v bs n}, R v bs → n ≤ v.len → R ⟨advance v.base n, v.len - n⟩ (bs.drop n)

/-- The regions hold pieces of `w`, in order. -/
def Spells (R : Region α → List β → Prop) (vs : List (Region α)) (w : List β) : Prop :=
  ∃ pieces, List.Forall₂ R vs pieces ∧ pieces.flatten = w

section
variable {R : Region α → List β → Prop} {vs vs' : List (Region α)} {v : Region α} {w w' bs : List β}
omit [Pointer α]

theorem Spells.nil : Spells R [] [] := ⟨[], .nil, rfl⟩

theorem Spells.nil_eq (h : Spells R [] w) : w = [] := by
  obtain ⟨pieces, hp, rfl⟩ := h
  cases hp with
  | nil => rfl

theorem Spells.cons (hv : R v bs) (h : Spells R vs w) : Spells R (v :: vs) (bs ++ w) := by
  obtain ⟨pieces, hp, rfl⟩ := h
  exact ⟨bs :: pieces, .cons hv hp, rfl⟩

theorem Spells.uncons (h : Spells R (v :: vs) w) :
    ∃ bs w', R v bs ∧ Spells R vs w' ∧ w = bs ++ w' := by
  obtain ⟨pieces, hp, rfl⟩ := h
  cases hp with
  | cons hv hvs => exact ⟨_, _, hv, ⟨_, hvs, rfl⟩, rfl⟩

theorem Spells.append (h : Spells R vs w) (h' : Spells R vs' w') :
    Spells R (vs ++ vs') (w ++ w') := by
  obtain ⟨pieces, hp, rfl⟩ := h
  obtain ⟨pieces', hp', rfl⟩ := h'
  exact ⟨pieces ++ pieces', List.rel_append hp hp', List.flatten_append⟩

theorem Spells.imp {R' : Region α → List β → Prop} (himp : ∀ v bs, R v bs → R' v bs)
    (h : Spells R vs w) : Spells R' vs w := by
  obtain ⟨pieces, hp, hw⟩ := h
  exact ⟨pieces, hp.imp himp, hw⟩

end

section
variable {R : Region α → List β → Prop} (hR : Holding R)
include hR

theorem Spells.length {vs : List (Region α)} {w : List β} (h : Spells R vs w) :
    w.length = offered vs := by
  induction vs generalizing w with
  | nil => rw [h.nil_eq]; rfl
  | cons v vs ih =>
      obtain ⟨bs, w', hv, hvs, rfl⟩ := h.uncons
      rw [List.length_append, hR.length hv, ih hvs]
      rfl

/-- A short write takes the first bytes and leaves the others, wherever it ends. -/
theorem Spells.split {vs : List (Region α)} {w : List β} (h : Spells R vs w) (n : Nat) :
    Spells R (takeFront n vs) (w.take n) ∧ Spells R (dropFront n vs) (w.drop n) := by
  induction vs generalizing w n with
  | nil =>
      obtain rfl := h.nil_eq
      cases n with
      | zero => exact ⟨.nil, .nil⟩
      | succ n => exact ⟨.nil, .nil⟩
  | cons v vs ih =>
      cases n with
      | zero => exact ⟨.nil, h⟩
      | succ n =>
          obtain ⟨bs, w', hv, hvs, rfl⟩ := h.uncons
          have hlen := hR.length hv
          by_cases hn : n + 1 < v.len
          · have hle : n + 1 ≤ v.len := Nat.le_of_lt hn
            rw [takeFront, dropFront, if_pos hn, if_pos hn,
              List.take_append_of_le_length (by omega), List.drop_append_of_le_length (by omega)]
            constructor
            · have hone := Spells.cons (hR.front hv hle) Spells.nil
              rwa [List.append_nil] at hone
            · exact Spells.cons (hR.back hv hle) hvs
          · obtain ⟨htake, hdrop⟩ := ih hvs (n + 1 - v.len)
            rw [takeFront, dropFront, if_neg hn, if_neg hn, List.take_append, List.drop_append,
              hlen, List.take_of_length_le (by omega), List.drop_of_length_le (by omega)]
            exact ⟨Spells.cons hv htake, hdrop⟩

end

/-! ## Empty regions at the end -/

/-- The last region of the list holds something. -/
def EndsSolid (vs : List (Region α)) : Prop := ∃ v, vs.getLast? = some v ∧ 0 < v.len

/-- The last region of the list holds nothing. -/
def EndsHollow (vs : List (Region α)) : Prop := ∃ v, vs.getLast? = some v ∧ v.len = 0

section Ends
variable {vs : List (Region α)}
omit [Pointer α]

theorem ends_of_ne_nil (h : vs ≠ []) : EndsSolid vs ∨ EndsHollow vs := by
  have hlast := List.getLast?_eq_some_getLast h
  rcases Nat.eq_zero_or_pos (vs.getLast h).len with hzero | hpos
  · exact .inr ⟨_, hlast, hzero⟩
  · exact .inl ⟨_, hlast, hpos⟩

theorem EndsHollow.ne_nil (h : EndsHollow vs) : vs ≠ [] := by
  rintro rfl
  obtain ⟨v, hv, -⟩ := h
  exact absurd hv nofun

theorem EndsSolid.ne_nil (h : EndsSolid vs) : vs ≠ [] := by
  rintro rfl
  obtain ⟨v, hv, -⟩ := h
  exact absurd hv nofun

theorem EndsSolid.offered_pos (h : EndsSolid vs) : 0 < offered vs := by
  obtain ⟨v, hv, hpos⟩ := h
  exact List.sum_pos_iff_exists_pos_nat.mpr ⟨v.len, List.mem_map_of_mem (List.mem_of_getLast? hv), hpos⟩

end Ends

omit [Pointer α] in
theorem offered_cons (v : Region α) (vs : List (Region α)) : offered (v :: vs) = v.len + offered vs := rfl

/-- What is written comes off what is offered. -/
theorem offered_dropFront (vs : List (Region α)) {n : Nat} (hn : n ≤ offered vs) :
    offered (dropFront n vs) = offered vs - n := by
  induction vs generalizing n with
  | nil =>
      obtain rfl := Nat.le_zero.mp hn
      rfl
  | cons v vs ih =>
      rw [offered_cons] at hn
      cases n with
      | zero => rfl
      | succ n =>
          rw [dropFront]
          split
          · rw [offered_cons, offered_cons]
            dsimp only
            omega
          · rw [ih (by omega), offered_cons]
            omega

/-- A region at the end that holds something is still there, at the end, or all is written. -/
theorem EndsSolid.dropFront {vs : List (Region α)} (h : EndsSolid vs) (n : Nat) :
    dropFront n vs = [] ∨ EndsSolid (dropFront n vs) := by
  induction vs generalizing n with
  | nil => exact absurd rfl h.ne_nil
  | cons v vs ih =>
      cases n with
      | zero => exact .inr h
      | succ n =>
          rw [Gather.dropFront]
          cases vs with
          | nil =>
              split
              next hless => exact .inr ⟨_, rfl, Nat.sub_pos_of_lt hless⟩
              next =>
                cases n + 1 - v.len with
                | zero => exact .inl rfl
                | succ m => exact .inl rfl
          | cons w vs =>
              have hrest : EndsSolid (w :: vs) := by
                unfold EndsSolid at h
                rwa [List.getLast?_cons_cons] at h
              split
              · refine .inr ?_
                unfold EndsSolid
                rwa [List.getLast?_cons_cons]
              · exact ih hrest _

/-- An empty region at the end is never taken off: nothing of it is ever written. -/
theorem EndsHollow.dropFront {vs : List (Region α)} (h : EndsHollow vs) {n : Nat} (hn : n ≤ offered vs) :
    EndsHollow (dropFront n vs) := by
  induction vs generalizing n with
  | nil => exact absurd rfl h.ne_nil
  | cons v vs ih =>
      rw [offered_cons] at hn
      cases n with
      | zero => exact h
      | succ n =>
          cases vs with
          | nil =>
              obtain ⟨w, hw, hzero⟩ := h
              obtain rfl : v = w := Option.some.inj hw
              rw [hzero] at hn
              exact absurd hn (Nat.not_succ_le_zero n)
          | cons w vs =>
              have hrest : EndsHollow (w :: vs) := by
                unfold EndsHollow at h
                rwa [List.getLast?_cons_cons] at h
              rw [Gather.dropFront]
              split
              · unfold EndsHollow
                rwa [List.getLast?_cons_cons]
              · exact ih hrest (by omega)

end Lib.Gather
