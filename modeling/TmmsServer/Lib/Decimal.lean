import Mathlib.Data.Nat.Digits.Defs

/-!
# Decimal numbers

The characters of a number, and the number read back from the front of a text.
-/
namespace Lib.Decimal

/-- The character of a digit. -/
def digit (d : Nat) : UInt8 := UInt8.ofNat (48 + d)

/-- A number without leading zeros. -/
def write (n : Nat) : List UInt8 := if n = 0 then [digit 0] else (Nat.digits 10 n).reverse.map digit

def isDigit (c : UInt8) : Bool := 48 ≤ c.toNat && c.toNat ≤ 57

/-- What the digits in front make of the number read so far. -/
def readDigits (n : Nat) : List UInt8 → Nat
  | [] => n
  | c :: s => if isDigit c then readDigits (10 * n + (c.toNat - 48)) s else n

def isSpace (c : UInt8) : Bool := c == 32 || (9 ≤ c.toNat && c.toNat ≤ 13)

/-- A sign and digits. -/
def readSigned : List UInt8 → Int
  | [] => 0
  | c :: s =>
      if c = 45 then -(readDigits 0 s : Int)
      else if c = 43 then readDigits 0 s
      else readDigits 0 (c :: s)

/-- `std::atoi`, for numbers that an `int` holds. -/
def atoi (s : List UInt8) : Int := readSigned (s.dropWhile isSpace)

variable {c : UInt8} {d n : Nat} {s : List UInt8}

theorem digit_toNat (hd : d < 10) : (digit d).toNat = 48 + d := by
  rw [digit, UInt8.toNat_ofNat']
  omega

theorem isDigit_digit (hd : d < 10) : isDigit (digit d) = true := by
  unfold isDigit
  rw [digit_toNat hd, Bool.and_eq_true, decide_eq_true_eq, decide_eq_true_eq]
  omega

theorem atoi_cons (hc : isDigit c = true) (s : List UInt8) : atoi (c :: s) = readDigits 0 (c :: s) := by
  have hrange : 48 ≤ c.toNat ∧ c.toNat ≤ 57 := by simpa [isDigit] using hc
  have hne : ∀ k : UInt8, k.toNat < 48 → c ≠ k := by
    rintro k hk rfl
    omega
  have hspace : ¬ isSpace c = true := by
    simp only [isSpace, Bool.or_eq_true, beq_iff_eq, Bool.and_eq_true, decide_eq_true_eq]
    rintro (rfl | hblank)
    · exact absurd hrange (by decide)
    · omega
  rw [atoi, List.dropWhile_cons, if_neg hspace, readSigned, if_neg (hne 45 (by decide)),
    if_neg (hne 43 (by decide))]

theorem readDigits_stop (n : Nat) (h : ∀ c, s.head? = some c → isDigit c = false) : readDigits n s = n := by
  cases s with
  | nil => rfl
  | cons c s => rw [readDigits, h c rfl, if_neg Bool.false_ne_true]

theorem readDigits_map {ds : List Nat} (h : ∀ d ∈ ds, d < 10) (n : Nat) (s : List UInt8) :
    readDigits n (ds.map digit ++ s) = readDigits (ds.foldl (fun n d => 10 * n + d) n) s := by
  induction ds generalizing n with
  | nil => rfl
  | cons d ds ih =>
      have hd := h d List.mem_cons_self
      rw [List.map_cons, List.cons_append, readDigits, if_pos (isDigit_digit hd), digit_toNat hd,
        Nat.add_sub_cancel_left, ih fun d hd => h d (List.mem_cons_of_mem _ hd)]
      rfl

theorem foldl_digits (n : Nat) : (Nat.digits 10 n).reverse.foldl (fun n d => 10 * n + d) 0 = n := by
  rw [List.foldl_reverse]
  conv_rhs => rw [← Nat.ofDigits_digits 10 n, Nat.ofDigits_eq_foldr]
  congr 1
  funext d n
  exact Nat.add_comm _ _

theorem write_eq (n : Nat) : ∃ ds : List Nat, ds ≠ [] ∧ (∀ d ∈ ds, d < 10) ∧ write n = ds.map digit ∧
    ds.foldl (fun n d => 10 * n + d) 0 = n := by
  unfold write
  split
  next hzero =>
    subst hzero
    exact ⟨[0], by simp, by simp, rfl, rfl⟩
  next hpos =>
    refine ⟨(Nat.digits 10 n).reverse, ?_, fun d hd => ?_, rfl, foldl_digits n⟩
    · simpa using Nat.digits_ne_nil_iff_ne_zero.mpr hpos
    · exact Nat.digits_lt_base (by decide) (List.mem_reverse.mp hd)

/-- A number comes back where no digit follows it. -/
theorem atoi_write (n : Nat) (h : ∀ c, s.head? = some c → isDigit c = false) : atoi (write n ++ s) = n := by
  obtain ⟨ds, hne, hdigits, hwrite, hvalue⟩ := write_eq n
  obtain ⟨d, rest, rfl⟩ := List.exists_cons_of_ne_nil hne
  have hfront := atoi_cons (isDigit_digit (hdigits d List.mem_cons_self)) (rest.map digit ++ s)
  have hread := readDigits_map hdigits 0 s
  rw [hvalue, readDigits_stop n h] at hread
  rw [hwrite, ← hread]
  exact hfront

theorem isDigit_of_mem_write (h : c ∈ write n) : isDigit c = true := by
  obtain ⟨ds, -, hdigits, hwrite, -⟩ := write_eq n
  rw [hwrite] at h
  obtain ⟨d, hd, rfl⟩ := List.mem_map.mp h
  exact isDigit_digit (hdigits d hd)

end Lib.Decimal
