import Mathlib.Data.List.Chain

/-!
# Scans that take the next entry

A pass over a list from left to right in which a marked entry may take the one behind
it along, and when two such passes read the list alike.
-/
namespace Lib.Scan

variable {α : Type*}

/-- The entries as they come up, each with the one it takes. -/
def scan (takes : α → α → Bool) : List α → List (α × Option α)
  | [] => []
  | [a] => [(a, none)]
  | a :: b :: rest =>
      if takes a b then (a, some b) :: scan takes rest else (a, none) :: scan takes (b :: rest)

/-- What a scan makes of the entry at a position. -/
inductive Role where
  | marked
  | taken
  | free
  deriving DecidableEq, Repr

def roles (marked : α → Bool) (entries : List (α × Option α)) : List Role :=
  entries.flatMap fun
    | (_, some _) => [.marked, .taken]
    | (a, none) => [if marked a then .marked else .free]

/-- The entries that are neither marked nor taken. -/
def free (marked : α → Bool) (entries : List (α × Option α)) : List α :=
  entries.filterMap fun
    | (_, some _) => none
    | (a, none) => if marked a then none else some a

/-- Only a marked entry takes, and only one that is not marked. -/
def Guarded (marked : α → Bool) (takes : α → α → Bool) : Prop :=
  ∀ a b, takes a b = true → marked a = true ∧ marked b = false

section One
variable {marked : α → Bool} {takes : α → α → Bool} {a b : α} {rest xs : List α}

theorem scan_take (h : takes a b = true) : scan takes (a :: b :: rest) = (a, some b) :: scan takes rest := if_pos h

theorem scan_leave (h : ¬ takes a b = true) : scan takes (a :: b :: rest) = (a, none) :: scan takes (b :: rest) :=
  if_neg h

@[simp] theorem roles_take (entries : List (α × Option α)) :
    roles marked ((a, some b) :: entries) = .marked :: .taken :: roles marked entries := rfl

@[simp] theorem roles_leave (entries : List (α × Option α)) :
    roles marked ((a, none) :: entries) = (if marked a then .marked else .free) :: roles marked entries := rfl

theorem Guarded.ne (h : Guarded marked takes) (ha : marked a = false) (b : α) : ¬ takes a b = true := by
  intro htakes
  exact absurd ((h a b htakes).1.symm.trans ha) (by decide)

theorem Guarded.scan_plain (h : Guarded marked takes) (ha : marked a = false) (rest : List α) :
    scan takes (a :: rest) = (a, none) :: scan takes rest := by
  cases rest with
  | nil => rfl
  | cons b rest => exact scan_leave (h.ne ha b)

/-- The marks are seen by every scan. -/
theorem Guarded.roles_marked (h : Guarded marked takes) (xs : List α) :
    (roles marked (scan takes xs)).map (· = .marked) = xs.map (marked · = true) := by
  fun_induction scan takes xs with
  | case1 => rfl
  | case2 a => by_cases ha : marked a = true <;> simp [roles, ha]
  | case3 a b rest htakes ih =>
      obtain ⟨ha, hb⟩ := h a b htakes
      simp [ha, hb, ih]
  | case4 a b rest htakes ih =>
      rw [roles_leave, List.map_cons, ih]
      by_cases ha : marked a = true <;> simp [ha]

theorem free_scan (marked : α → Bool) (takes : α → α → Bool) (xs : List α) : free marked (scan takes xs) =
    (xs.zip (roles marked (scan takes xs))).filterMap fun p => if p.2 = .free then some p.1 else none := by
  fun_induction scan takes xs with
  | case1 => rfl
  | case2 a => by_cases ha : marked a = true <;> simp [roles, free, ha]
  | case3 a b rest htakes ih =>
      rw [roles_take, List.zip_cons_cons, List.zip_cons_cons]
      exact ih
  | case4 a b rest htakes ih =>
      rw [roles_leave, List.zip_cons_cons, List.filterMap_cons, ← ih]
      by_cases ha : marked a = true <;> simp [free, ha]

end One

section Two
variable {marked : α → Bool} {takes takes' : α → α → Bool} {a b : α} {rest xs : List α}

theorem isChain_plain (h : Guarded marked takes) (h' : Guarded marked takes') (ha : marked a = false) :
    (a :: rest).IsChain (fun x y => takes x y = takes' x y) ↔ rest.IsChain fun x y => takes x y = takes' x y := by
  cases rest with
  | nil => simp
  | cons b rest =>
      have hsame : takes a b = takes' a b := by
        rw [Bool.eq_false_iff.mpr (h.ne ha b), Bool.eq_false_iff.mpr (h'.ne ha b)]
      simp [hsame]

/-- Two scans read a list alike exactly if every entry takes the next one in both or in neither. -/
theorem roles_eq_iff (h : Guarded marked takes) (h' : Guarded marked takes') (xs : List α) :
    roles marked (scan takes xs) = roles marked (scan takes' xs) ↔
      xs.IsChain fun a b => takes a b = takes' a b := by
  fun_induction scan takes xs with
  | case1 => simp [scan]
  | case2 a => simp [scan]
  | case3 a b rest htakes ih =>
      obtain ⟨ha, hb⟩ := h a b htakes
      by_cases htakes' : takes' a b = true
      · rw [scan_take htakes', List.isChain_cons_cons, isChain_plain h h' hb, ← ih]
        simp [htakes, htakes']
      · rw [scan_leave htakes', h'.scan_plain hb, List.isChain_cons_cons]
        simp [ha, hb, htakes, htakes']
  | case4 a b rest htakes ih =>
      by_cases htakes' : takes' a b = true
      · obtain ⟨ha, hb⟩ := h' a b htakes'
        rw [scan_take htakes', h.scan_plain hb, List.isChain_cons_cons]
        simp [ha, hb, htakes, htakes']
      · rw [scan_leave htakes', List.isChain_cons_cons, ← ih]
        simp [htakes, htakes']

end Two

/-- Exactly one of three. -/
def ExactlyOne (a b c : Prop) : Prop := (a ∧ ¬ b ∧ ¬ c) ∨ (¬ a ∧ b ∧ ¬ c) ∨ (¬ a ∧ ¬ b ∧ c)

/-- Where the marks are the same, each position is marked, taken by the first or free in the second, and only one of
these, exactly if the roles are the same. -/
theorem exactlyOne_iff {p q : List Role} (h : p.map (· = .marked) = q.map (· = .marked)) :
    (∀ i < p.length, ExactlyOne (p[i]? = some .marked) (p[i]? = some .taken) (q[i]? = some .free)) ↔ p = q := by
  induction p generalizing q with
  | nil => simp_all
  | cons r p ih =>
      cases q with
      | nil => exact absurd (congrArg List.length h) (by simp)
      | cons s q =>
          obtain ⟨hmark, hmarks⟩ := List.cons.inj h
          have hhead : ExactlyOne (some r = some .marked) (some r = some .taken) (some s = some .free) ↔ r = s := by
            cases r <;> cases s <;> simp_all [ExactlyOne]
          rw [List.cons.injEq, ← ih hmarks]
          constructor
          · intro hall
            exact ⟨hhead.mp (hall 0 (Nat.succ_pos _)), fun i hi => hall (i + 1) (Nat.succ_lt_succ hi)⟩
          · rintro ⟨heq, hrest⟩ i hi
            cases i with
            | zero => exact hhead.mpr heq
            | succ i => exact hrest i (Nat.lt_of_succ_lt_succ hi)

end Lib.Scan
