import TmmsServer.Base.StringUtils
import TmmsServer.Lib.Loop
import TmmsServer.Lib.Pieces

/-!
# Splitting strings

The two splitters of `StringUtils` as the loops they are: `SplitString` goes from one
delimiter to the next, `SplitStringWithFSM` from one character to the next.
-/
namespace TmmsServer.StringUtils
open Lib

/-! ## Finding the delimiter -/

section Find
variable {d s : List UInt8} {n : Nat}

theorem find_some (h : find d s = some n) : n < s.length ∧ d <+: s.drop n ∧ ∀ m < n, ¬ d <+: s.drop m := by
  induction s generalizing n with
  | nil => exact absurd h nofun
  | cons c s ih =>
      rw [find] at h
      split at h
      next hfront =>
        obtain rfl := Option.some.inj h
        exact ⟨Nat.succ_pos _, List.isPrefixOf_iff_prefix.mp hfront, fun m hm => absurd hm (Nat.not_lt_zero m)⟩
      next hfront =>
        obtain ⟨k, hk, rfl⟩ := Option.map_eq_some_iff.mp h
        obtain ⟨hlt, hat, hfirst⟩ := ih hk
        refine ⟨Nat.succ_lt_succ hlt, hat, fun m hm => ?_⟩
        cases m with
        | zero => exact fun hprefix => hfront (List.isPrefixOf_iff_prefix.mpr hprefix)
        | succ m => exact hfirst m (Nat.lt_of_succ_lt_succ hm)

theorem find_eq_none (hd : d ≠ []) (h : find d s = none) (m : Nat) : ¬ d <+: s.drop m := by
  induction s generalizing m with
  | nil =>
      rw [List.drop_nil]
      exact fun hprefix => hd (List.prefix_nil.mp hprefix)
  | cons c s ih =>
      rw [find] at h
      split at h
      · exact absurd h (Option.some_ne_none 0)
      next hfront =>
        cases m with
        | zero => exact fun hprefix => hfront (List.isPrefixOf_iff_prefix.mpr hprefix)
        | succ m => exact ih (Option.map_eq_none_iff.mp h) m

theorem find_split (h : find d s = some n) : s.take n ++ (d ++ s.drop (n + d.length)) = s := by
  obtain ⟨-, ⟨rest, hrest⟩, -⟩ := find_some h
  rw [← List.drop_drop, ← hrest, List.drop_left, hrest, List.take_append_drop]

end Find

/-! ## `SplitString` -/

section Equation
variable {d s : List UInt8}

theorem splitLoop_fuel (hd : d ≠ []) {m n : Nat} (hm : s.length < m) (hn : s.length < n) :
    splitLoop d m s = splitLoop d n s := by
  induction m generalizing s n with
  | zero => exact absurd hm (Nat.not_lt_zero _)
  | succ m ih =>
      cases n with
      | zero => exact absurd hn (Nat.not_lt_zero _)
      | succ n =>
          rw [splitLoop, splitLoop]
          cases hfind : find d s with
          | none => rfl
          | some next =>
              have hpos := List.length_pos_iff.mpr hd
              have hlt := (find_some hfind).1
              have hrest : (s.drop (next + d.length)).length < s.length := by
                rw [List.length_drop]
                omega
              dsimp only
              rw [ih (by omega) (by omega : _ < n)]

theorem splitString_eq (hd : d ≠ []) (s : List UInt8) : splitString s d =
    match find d s with
    | some next => s.take next :: splitString (s.drop (next + d.length)) d
    | none => if s = [] then [] else [s] := by
  have hunfold : ∀ u, splitString u d = splitLoop d (u.length + 1) u := fun u => if_neg hd
  rw [hunfold, splitLoop]
  cases hfind : find d s with
  | none => rfl
  | some next =>
      have hpos := List.length_pos_iff.mpr hd
      have hlt := (find_some hfind).1
      dsimp only
      rw [hunfold, splitLoop_fuel hd (by rw [List.length_drop]; omega) (Nat.lt_succ_self _)]

end Equation

/-- Where the loop of `SplitString` stands: the end of the last delimiter, and the pieces so far. -/
structure Splitting where
  last : Nat := 0
  result : List (List UInt8) := []

/-- A pass of the loop, from `last` on. -/
def splitPass (s delimiter : List UInt8) (t : Splitting) : Pass Splitting Splitting :=
  match (find delimiter (s.drop t.last)).map (t.last + ·) with
  | some next => .next {
      last := next + delimiter.length
      result := t.result ++ [if t.last < next then (s.drop t.last).take (next - t.last) else []] }
  | none => .done t

/-- What is behind the last delimiter is a piece as well, unless it is empty. -/
def Splitting.pieces (s : List UInt8) (t : Splitting) : List (List UInt8) :=
  if t.last < s.length then t.result ++ [s.drop t.last] else t.result

section Loop
variable {s d : List UInt8} {t t' : Splitting}

/-- What the pieces so far and the end of the last delimiter say about the string. -/
structure Cuts (s d : List UInt8) (t : Splitting) : Prop where
  last_le : t.last ≤ s.length
  whole : Pieces.closed d t.result ++ s.drop t.last = s
  clear : ∀ piece ∈ t.result, ¬ d <:+: piece
  rest : t.result ++ splitString (s.drop t.last) d = splitString s d

theorem cuts_start (s d : List UInt8) : Cuts s d {} :=
  ⟨Nat.zero_le _, rfl, fun _ h => absurd h List.not_mem_nil, rfl⟩

theorem Cuts.next (hd : d ≠ []) (h : Cuts s d t) (hpass : splitPass s d t = .next t') :
    Cuts s d t' ∧ t.last < t'.last := by
  unfold splitPass at hpass
  cases hfind : find d (s.drop t.last) with
  | none =>
      rw [hfind] at hpass
      exact absurd hpass nofun
  | some n =>
      rw [hfind] at hpass
      obtain rfl := Pass.next.inj hpass
      obtain ⟨hlt, hat, hfirst⟩ := find_some hfind
      have hpos := List.length_pos_iff.mpr hd
      have hroom := hat.length_le
      rw [List.length_drop] at hlt hroom
      rw [List.length_drop] at hroom
      have hpiece : (if t.last < t.last + n then (s.drop t.last).take (t.last + n - t.last) else []) =
          (s.drop t.last).take n := by
        rw [Nat.add_sub_cancel_left]
        split
        · rfl
        next hnone => rw [show n = 0 by omega, List.take_zero]
      have hdrop : s.drop (t.last + n + d.length) = (s.drop t.last).drop (n + d.length) := by
        rw [List.drop_drop, Nat.add_assoc]
      refine ⟨⟨?_, ?_, ?_, ?_⟩, ?_⟩
      · dsimp only
        omega
      · dsimp only
        rw [hpiece, hdrop, Pieces.closed_concat, List.append_assoc, List.append_assoc, find_split hfind]
        exact h.whole
      · intro piece hmem
        dsimp only at hmem
        rw [hpiece] at hmem
        rcases List.mem_append.mp hmem with hmem | hmem
        · exact h.clear piece hmem
        · rw [List.mem_singleton.mp hmem]
          exact Pieces.not_infix_take hd hfirst
      · dsimp only
        rw [hpiece, hdrop, ← h.rest, splitString_eq hd (s.drop t.last), hfind, List.append_assoc]
        rfl
      · dsimp only
        omega

theorem splitPass_done (hpass : splitPass s d t = .done t') : t' = t ∧ find d (s.drop t.last) = none := by
  unfold splitPass at hpass
  cases hfind : find d (s.drop t.last) with
  | some n =>
      rw [hfind] at hpass
      exact absurd hpass nofun
  | none =>
      rw [hfind] at hpass
      exact ⟨(Pass.done.inj hpass).symm, rfl⟩

/-- At the end of the loop the pieces are all there, and none holds the delimiter. -/
theorem Cuts.pieces_eq (hd : d ≠ []) (h : Cuts s d t) (hnone : find d (s.drop t.last) = none) :
    splitString s d = t.pieces s ∧ ∀ piece ∈ t.pieces s, ¬ d <:+: piece := by
  have hrest := h.rest
  rw [splitString_eq hd, hnone] at hrest
  dsimp only at hrest
  unfold Splitting.pieces
  split
  next hlast =>
    rw [if_neg fun hempty => absurd (List.drop_eq_nil_iff.mp hempty) (by omega)] at hrest
    refine ⟨hrest.symm, fun piece hmem => ?_⟩
    rcases List.mem_append.mp hmem with hmem | hmem
    · exact h.clear piece hmem
    · rw [List.mem_singleton.mp hmem]
      rintro ⟨a, b, hab⟩
      refine find_eq_none hd hnone a.length ⟨b, ?_⟩
      rw [← hab, List.append_assoc, List.drop_left]
  next hlast =>
    rw [if_pos (List.drop_eq_nil_iff.mpr (by omega)), List.append_nil] at hrest
    exact ⟨hrest.symm, h.clear⟩

/-- Joined, the pieces lack the last delimiter where nothing is behind it. -/
theorem Cuts.joined (h : Cuts s d t) :
    d.intercalate (t.pieces s) ++ (if t.result ≠ [] ∧ t.last = s.length then d else []) = s := by
  have hwhole := h.whole
  unfold Splitting.pieces
  split
  next hlast =>
    rw [if_neg fun hend => absurd hend.2 (by omega), List.append_nil, Pieces.intercalate_concat]
    exact hwhole
  next hlast =>
    have hend : t.last = s.length := Nat.le_antisymm h.last_le (Nat.not_lt.mp hlast)
    rw [hend, List.drop_length, List.append_nil] at hwhole
    by_cases hnone : t.result = []
    · rw [if_neg fun hfound => hfound.1 hnone, hnone, List.append_nil]
      rw [hnone] at hwhole
      exact hwhole
    · rw [if_pos ⟨hnone, hend⟩, Pieces.intercalate_append hnone]
      exact hwhole

/-- The loop comes to its end; its pieces are those of `splitString`, none of them holds the delimiter, and joined
they are the string, without its last delimiter where that one ends it. -/
theorem splitString_lossless (s : List UInt8) (hd : d ≠ []) :
    ∃ t, Loop.Returns (splitPass s d) {} t ∧ splitString s d = t.pieces s ∧
      (∀ piece ∈ splitString s d, ¬ d <:+: piece) ∧
        d.intercalate (splitString s d) ++ (if t.result ≠ [] ∧ t.last = s.length then d else []) = s := by
  obtain ⟨t, hreturns⟩ : ∃ t, Loop.Returns (splitPass s d) {} t := by
    refine Loop.returns_of_measure (fun t => s.length - t.last) (cuts_start s d) fun t t' h hpass => ?_
    obtain ⟨h', hless⟩ := h.next hd hpass
    have hle := h'.last_le
    exact ⟨h', by omega⟩
  obtain ⟨hcuts, hnone⟩ : Cuts s d t ∧ find d (s.drop t.last) = none := by
    refine hreturns.post (Q := fun t => Cuts s d t ∧ find d (s.drop t.last) = none) (cuts_start s d)
      (fun t t' h hpass => (h.next hd hpass).1) fun t t' h hpass => ?_
    obtain ⟨rfl, hnone⟩ := splitPass_done hpass
    exact ⟨h, hnone⟩
  obtain ⟨heq, hclear⟩ := hcuts.pieces_eq hd hnone
  refine ⟨t, hreturns, heq, heq ▸ hclear, ?_⟩
  rw [heq]
  exact hcuts.joined

/-- Delimiters that overlap: `aaa` is an empty piece and `a`. -/
theorem splitString_lossless_overlap : ∃ t, Loop.Returns (splitPass (text "aaa") (text "aa")) {} t ∧
    splitString (text "aaa") (text "aa") = t.pieces (text "aaa") ∧
      splitString (text "aaa") (text "aa") = [[], text "a"] := by
  obtain ⟨t, hreturns, hpieces, -⟩ := splitString_lossless (text "aaa") (by decide : text "aa" ≠ [])
  exact ⟨t, hreturns, hpieces, by decide⟩

end Loop

/-! ## `SplitStringWithFSM` -/

/-- The states, by the source's names. -/
inductive SplitState where
  | init
  | normal
  | delimiter
  | ended
  deriving DecidableEq, Repr

/-- Where the automaton stands; the strings are shorter than `2^31`, so `pos` does not run over. -/
structure SplitFSM where
  state : SplitState := .normal
  pos : Nat := 0
  tmp : List UInt8 := []
  result : List (List UInt8) := []

/-- A pass of the loop, and what is returned behind it. -/
def fsmPass (s : List UInt8) (delimiter : UInt8) (t : SplitFSM) : Pass SplitFSM (List (List UInt8)) :=
  match s[t.pos]? with
  | none => .done (if t.tmp ≠ [] then t.result ++ [t.tmp] else t.result)
  | some c =>
      match t.state with
      | .normal =>
          if c = delimiter then .next { t with state := .delimiter }
          else .next { t with tmp := t.tmp ++ [c], pos := t.pos + 1 }
      | .delimiter => .next {
          state := .normal
          pos := t.pos + 1
          tmp := []
          result := t.result ++ [t.tmp] }
      | _ => .next t

/-- `SplitStringWithFSM`; a character takes two passes at most. -/
def splitStringWithFSM (s : List UInt8) (delimiter : UInt8) : Option (List (List UInt8)) :=
  Loop.within (fsmPass s delimiter) (2 * s.length + 2) {}

section Automaton
variable {s a : List UInt8} {c : UInt8} {t t' : SplitFSM}

theorem splitString_segment (h : c ∉ a) (s : List UInt8) :
    splitString (a ++ c :: s) [c] = a :: splitString s [c] := by
  have hdrop : (a ++ c :: s).drop (a.length + [c].length) = s := by
    rw [← List.drop_drop, List.drop_left]
    rfl
  rw [splitString_eq (List.cons_ne_nil c []), find_segment h]
  dsimp only
  rw [List.take_left, hdrop]

theorem splitString_last (h : c ∉ a) : splitString a [c] = if a = [] then [] else [a] := by
  rw [splitString_eq (List.cons_ne_nil c []), find_none h]

/-- The accumulator is the front of the piece that is being read; with it, what is left gives the pieces that are
still to come. -/
structure Reads (s : List UInt8) (c : UInt8) (t : SplitFSM) : Prop where
  clear : c ∉ t.tmp
  pieces : t.result ++ splitString (t.tmp ++ s.drop t.pos) [c] = splitString s [c]
  state : t.state = .normal ∨ t.state = .delimiter ∧ s[t.pos]? = some c

theorem reads_start (s : List UInt8) (c : UInt8) : Reads s c {} := ⟨List.not_mem_nil, rfl, .inl rfl⟩

/-- Twice the characters that are left, and one for the change of state. -/
def SplitFSM.left (s : List UInt8) (t : SplitFSM) : Nat :=
  2 * (s.length - t.pos) + if t.state = .normal then 1 else 0

theorem Reads.next (h : Reads s c t) (hpass : fsmPass s c t = .next t') : Reads s c t' ∧ t'.left s < t.left s := by
  unfold fsmPass at hpass
  cases hchar : s[t.pos]? with
  | none =>
      rw [hchar] at hpass
      exact absurd hpass nofun
  | some x =>
      obtain ⟨hlt, -⟩ := List.getElem?_eq_some_iff.mp hchar
      have hdrop : s.drop t.pos = x :: s.drop (t.pos + 1) := by
        rw [List.drop_eq_getElem?_toList_append, hchar]
        rfl
      have hpieces := h.pieces
      rw [hchar] at hpass
      rw [hdrop] at hpieces
      rcases h.state with hnormal | ⟨hdelimiter, hat⟩
      · rw [hnormal] at hpass
        dsimp only at hpass
        split at hpass
        next hx =>
          obtain rfl := Pass.next.inj hpass
          refine ⟨⟨h.clear, h.pieces, .inr ⟨rfl, hx ▸ hchar⟩⟩, ?_⟩
          simp [SplitFSM.left, hnormal]
        next hx =>
          obtain rfl := Pass.next.inj hpass
          refine ⟨⟨?_, ?_, .inl rfl⟩, ?_⟩
          · simp [h.clear, Ne.symm hx]
          · simpa using hpieces
          · simp only [SplitFSM.left, hnormal, if_true]
            omega
      · obtain rfl := Option.some.inj (hchar.symm.trans hat)
        rw [hdelimiter] at hpass
        obtain rfl := Pass.next.inj hpass
        refine ⟨⟨List.not_mem_nil, ?_, .inl rfl⟩, ?_⟩
        · rw [splitString_segment h.clear] at hpieces
          simpa using hpieces
        · simp only [SplitFSM.left, hdelimiter, if_true, reduceCtorEq, if_false]
          omega

theorem Reads.done {r : List (List UInt8)} (h : Reads s c t) (hpass : fsmPass s c t = .done r) :
    r = splitString s [c] := by
  unfold fsmPass at hpass
  cases hchar : s[t.pos]? with
  | some x =>
      rw [hchar] at hpass
      dsimp only at hpass
      split at hpass
      · split at hpass <;> exact absurd hpass nofun
      · exact absurd hpass nofun
      · exact absurd hpass nofun
  | none =>
      rw [hchar] at hpass
      obtain rfl := Pass.done.inj hpass
      have hpieces := h.pieces
      rw [List.drop_eq_nil_iff.mpr (List.getElem?_eq_none_iff.mp hchar), List.append_nil, splitString_last h.clear]
        at hpieces
      rw [← hpieces]
      by_cases hempty : t.tmp = []
      · simp [hempty]
      · simp [hempty]

/-- The automaton comes to its end with the pieces of `SplitString`. -/
theorem splitStringWithFSM_eq (s : List UInt8) (c : UInt8) : splitStringWithFSM s c = some (splitString s [c]) := by
  have hleft : ({} : SplitFSM).left s < 2 * s.length + 2 := by
    change 2 * (s.length - 0) + 1 < _
    omega
  obtain ⟨r, hr⟩ := Loop.within_of_measure (SplitFSM.left s) hleft (reads_start s c)
    fun t t' h hpass => h.next hpass
  have hpieces : r = splitString s [c] := Loop.Returns.post (Q := fun r => r = splitString s [c]) ⟨_, hr⟩
    (reads_start s c) (fun t t' h hpass => (h.next hpass).1) fun t r h hpass => h.done hpass
  rw [← hpieces]
  exact hr

example : splitStringWithFSM (text "/a//b/") 47 = some [[], text "a", [], text "b"] := by decide

end Automaton

end TmmsServer.StringUtils
