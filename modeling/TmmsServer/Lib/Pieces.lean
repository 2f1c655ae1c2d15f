import Mathlib.Data.List.Basic

/-!
# Pieces and separators

A list cut into pieces, each with the separator behind it, and what joins them again.
-/
namespace Lib.Pieces
variable {α : Type} {sep p u : List α} {ps : List (List α)} {n : Nat}

/-- The pieces, each with the separator behind it. -/
def closed (sep : List α) (ps : List (List α)) : List α := ps.flatMap (· ++ sep)

@[simp] theorem closed_nil : closed sep [] = [] := rfl

@[simp] theorem closed_cons : closed sep (p :: ps) = p ++ (sep ++ closed sep ps) := by simp [closed]

@[simp] theorem closed_concat : closed sep (ps ++ [p]) = closed sep ps ++ (p ++ sep) := by simp [closed]

theorem intercalate_concat (ps : List (List α)) (p : List α) :
    sep.intercalate (ps ++ [p]) = closed sep ps ++ p := by
  induction ps with
  | nil => exact List.intercalate_singleton
  | cons q ps ih =>
      rw [List.cons_append, List.intercalate_cons_of_ne_nil (by simp), ih]
      simp

theorem intercalate_append (h : ps ≠ []) : sep.intercalate ps ++ sep = closed sep ps := by
  obtain ⟨qs, q, rfl⟩ := (List.eq_nil_or_concat' ps).resolve_left h
  rw [intercalate_concat]
  simp

theorem not_infix_take (hsep : sep ≠ []) (hfirst : ∀ m < n, ¬ sep <+: u.drop m) : ¬ sep <:+: u.take n := by
  rintro ⟨a, b, hab⟩
  have hlen : a.length + sep.length ≤ n := by
    have htake := congrArg List.length hab
    simp only [List.length_append, List.length_take] at htake
    omega
  have hpos : 0 < sep.length := List.length_pos_iff.mpr hsep
  refine hfirst a.length (by omega) ⟨b ++ (u.drop n), ?_⟩
  have hu : u = a ++ (sep ++ (b ++ u.drop n)) := by
    rw [← List.append_assoc, ← List.append_assoc, hab, List.take_append_drop]
  conv_rhs => rw [hu]
  rw [List.drop_left]

end Lib.Pieces
