import Mathlib.Data.List.Basic

/-!
# String helpers

Strings are their bytes.
-/
namespace TmmsServer

/-- The bytes of a literal. -/
def text (s : String) : List UInt8 := s.toUTF8.data.toList

namespace StringUtils

/-- `std::string::find` of a string that is not empty, from the start. -/
def find (delimiter : List UInt8) : List UInt8 → Option Nat
  | [] => none
  | c :: s => if delimiter.isPrefixOf (c :: s) then some 0 else (find delimiter s).map (· + 1)

/-- The loop of `SplitString` on what lies behind the last delimiter; each pass takes a byte at least. -/
def splitLoop (delimiter : List UInt8) : Nat → List UInt8 → List (List UInt8)
  | 0, _ => []
  | fuel + 1, s =>
      match find delimiter s with
      | some next => s.take next :: splitLoop delimiter fuel (s.drop (next + delimiter.length))
      | none => if s = [] then [] else [s]

def splitString (s delimiter : List UInt8) : List (List UInt8) :=
  if delimiter = [] then [] else splitLoop delimiter (s.length + 1) s

/-- What `substr` gives behind the first `c`, if there is one. -/
def behind (c : UInt8) (s : List UInt8) : Option (List UInt8) :=
  (s.findIdx? (· = c)).map fun pos => s.drop (pos + 1)

section Split
variable {d : UInt8} {a s : List UInt8}

theorem find_segment (h : d ∉ a) : find [d] (a ++ d :: s) = some a.length := by
  induction a with
  | nil =>
      rw [List.nil_append, find, if_pos (by simp)]
      rfl
  | cons c a ih =>
      rw [List.mem_cons, not_or] at h
      rw [List.cons_append, find, if_neg (by simp [h.1]), ih h.2]
      rfl

theorem find_none (h : d ∉ a) : find [d] a = none := by
  induction a with
  | nil => rfl
  | cons c a ih =>
      rw [List.mem_cons, not_or] at h
      rw [find, if_neg (by simp [h.1]), ih h.2]
      rfl

theorem splitLoop_segment (fuel : Nat) (h : d ∉ a) :
    splitLoop [d] (fuel + 1) (a ++ d :: s) = a :: splitLoop [d] fuel s := by
  have hdrop : (a ++ d :: s).drop (a.length + [d].length) = s := by
    rw [← List.drop_drop, List.drop_left]
    rfl
  rw [splitLoop, find_segment h]
  dsimp only
  rw [List.take_left, hdrop]

theorem splitLoop_last (fuel : Nat) (h : d ∉ a) (hne : a ≠ []) :
    splitLoop [d] (fuel + 1) a = [a] := by
  rw [splitLoop, find_none h]
  exact if_neg hne

theorem behind_none (h : d ∉ s) : behind d s = none := by
  unfold behind
  rw [Option.map_eq_none_iff, List.findIdx?_eq_none_iff]
  intro c hc
  exact decide_eq_false fun hcd => h (hcd ▸ hc)

theorem behind_segment (h : d ∉ a) : behind d (a ++ d :: s) = some s := by
  have hnone : a.findIdx? (· = d) = none := Option.map_eq_none_iff.mp (behind_none h)
  have hpos : (a ++ d :: s).findIdx? (· = d) = some a.length := by
    rw [List.findIdx?_append, hnone, List.findIdx?_cons, if_pos (decide_eq_true rfl)]
    exact congrArg some (Nat.zero_add _)
  rw [behind, hpos, Option.map_some, ← List.drop_drop, List.drop_left]
  rfl

end Split

end StringUtils
end TmmsServer
