import Mathlib.Algebra.Order.Field.Rat
import Mathlib.Data.List.Basic

/-!
# Doubles as 64-bit patterns

IEEE 754 binary64 by its bit pattern: the cast to an unsigned 64-bit integer and
the cast back.
-/
namespace Lib.Double

/-- The double cut off behind the point, where it lies in `0 .. 2^64 - 1`. -/
def truncate (bits : UInt64) : Option UInt64 :=
  let exponent := bits.toNat / 2 ^ 52 % 2 ^ 11
  let magnitude := (2 ^ 52 + bits.toNat % 2 ^ 52) * 2 ^ (exponent - 1023) / 2 ^ 52
  if exponent < 1023 then some 0
  else if 2 ^ 63 ≤ bits.toNat ∨ 1023 + 64 ≤ exponent then none
  else some (UInt64.ofNat magnitude)

/-- The double nearest to an integer, the even one of two. -/
def ofUint64 (n : UInt64) : UInt64 :=
  if n = 0 then 0
  else
    let e := n.toNat.log2
    let digits :=
      if e ≤ 52 then n.toNat * 2 ^ (52 - e)
      else
        let unit := 2 ^ (e - 52)
        let low := n.toNat / unit
        let rest := 2 * (n.toNat % unit)
        if unit < rest ∨ rest = unit ∧ low % 2 = 1 then low + 1 else low
    UInt64.ofNat ((1023 + e) * 2 ^ 52 + digits - 2 ^ 52)

example : truncate 0x4008000000000000 = some 3 ∧ ofUint64 3 = 0x4008000000000000 ∧
    truncate 0xC08F400000000000 = none := by
  decide +kernel

/-- Below `2^53` no digit is lost. -/
theorem ofUint64_toNat {n : UInt64} (h0 : n ≠ 0) (h : n.toNat < 2 ^ 53) :
    ∃ digits, (ofUint64 n).toNat = (1023 + n.toNat.log2) * 2 ^ 52 + (digits - 2 ^ 52) ∧
      n.toNat.log2 ≤ 52 ∧
      2 ^ 52 ≤ digits ∧ digits < 2 ^ 53 ∧ digits * 2 ^ n.toNat.log2 = n.toNat * 2 ^ 52 := by
  have hpos : n.toNat ≠ 0 := fun hz => h0 (UInt64.toNat_inj.mp hz)
  have he : n.toNat.log2 ≤ 52 := Nat.le_of_lt_succ ((Nat.log2_lt hpos).mpr h)
  have hlow : 2 ^ n.toNat.log2 ≤ n.toNat := Nat.log2_self_le hpos
  have hhigh : n.toNat < 2 ^ (n.toNat.log2 + 1) := Nat.lt_log2_self
  have hsplit : 2 ^ (52 - n.toNat.log2) * 2 ^ n.toNat.log2 = 2 ^ 52 := by
    rw [← Nat.pow_add, Nat.sub_add_cancel he]
  have hunit : 0 < 2 ^ (52 - n.toNat.log2) := Nat.two_pow_pos _
  have hfloor : 2 ^ 52 ≤ n.toNat * 2 ^ (52 - n.toNat.log2) := by
    rw [← hsplit, Nat.mul_comm]
    exact Nat.mul_le_mul_right _ hlow
  have hceil : n.toNat * 2 ^ (52 - n.toNat.log2) < 2 ^ 53 := by
    have hstep := Nat.mul_lt_mul_of_pos_right hhigh hunit
    rwa [← Nat.pow_add, show n.toNat.log2 + 1 + (52 - n.toNat.log2) = 53 by omega] at hstep
  refine ⟨n.toNat * 2 ^ (52 - n.toNat.log2), ?_, he, hfloor, hceil, by rw [Nat.mul_assoc, hsplit]⟩
  unfold ofUint64
  rw [if_neg h0]
  dsimp only
  rw [if_pos he, UInt64.toNat_ofNat']
  omega

theorem truncate_ofUint64 {n : UInt64} (h : n.toNat < 2 ^ 53) : truncate (ofUint64 n) = some n := by
  by_cases h0 : n = 0
  · subst h0
    rfl
  obtain ⟨digits, hbits, he, hfloor, hceil, hscale⟩ := ofUint64_toNat h0 h
  have hexponent : (ofUint64 n).toNat / 2 ^ 52 % 2 ^ 11 = 1023 + n.toNat.log2 := by omega
  have hmantissa : 2 ^ 52 + (ofUint64 n).toNat % 2 ^ 52 = digits := by omega
  unfold truncate
  dsimp only
  rw [hexponent, hmantissa, if_neg (by omega), if_neg (by omega), Nat.add_sub_cancel_left, hscale,
    Nat.mul_div_cancel _ (Nat.two_pow_pos 52), UInt64.ofNat_toNat]

theorem ofUint64_front {n : UInt64} (h : n.toNat < 2 ^ 53) :
    (ofUint64 n).toNat / 2 ^ 48 = 0 ∨ 2 ^ 13 ≤ (ofUint64 n).toNat / 2 ^ 48 := by
  by_cases h0 : n = 0
  · subst h0
    exact .inl rfl
  · obtain ⟨digits, hbits, -⟩ := ofUint64_toNat h0 h
    exact .inr (by omega)

/-- Neither an infinity nor a NaN. -/
def Finite (bits : UInt64) : Prop := bits.toNat / 2 ^ 52 % 2 ^ 11 ≠ 2047

instance : DecidablePred Finite := fun bits =>
  inferInstanceAs (Decidable (bits.toNat / 2 ^ 52 % 2 ^ 11 ≠ 2047))

abbrev FiniteDouble := { bits : UInt64 // Finite bits }

/-- How many times the smallest double goes into 1. -/
@[irreducible] def unitsInOne : Nat := 2 ^ 1074

/-- The magnitude of a finite double, in units of the smallest. -/
def magnitude (bits : UInt64) : Nat :=
  let exponent := bits.toNat / 2 ^ 52 % 2 ^ 11
  let fraction := bits.toNat % 2 ^ 52
  if exponent = 0 then fraction else (2 ^ 52 + fraction) * 2 ^ (exponent - 1)

def scaled (bits : UInt64) : Int :=
  if 2 ^ 63 ≤ bits.toNat then -magnitude bits else magnitude bits

/-- The rational number a finite double denotes. -/
def value (bits : UInt64) : ℚ := scaled bits / unitsInOne

theorem unitsInOne_pos : 0 < unitsInOne := by
  unfold unitsInOne
  generalize 1074 = e
  exact Nat.two_pow_pos e

theorem value_eq_natCast {bits : UInt64} {n : Nat} :
    value bits = n ↔ scaled bits = n * unitsInOne := by
  have hunit : (unitsInOne : ℚ) ≠ 0 := Nat.cast_ne_zero.mpr (Nat.ne_of_gt unitsInOne_pos)
  rw [value, div_eq_iff hunit]
  constructor
  · intro h
    exact_mod_cast h
  · intro h
    exact_mod_cast h

theorem magnitude_of_le {bits : UInt64} (h : 1023 ≤ bits.toNat / 2 ^ 52 % 2 ^ 11) :
    magnitude bits * 2 ^ 52 = (2 ^ 52 + bits.toNat % 2 ^ 52) *
      2 ^ (bits.toNat / 2 ^ 52 % 2 ^ 11 - 1023) * unitsInOne := by
  unfold magnitude unitsInOne
  dsimp only
  generalize bits.toNat / 2 ^ 52 % 2 ^ 11 = e at h
  obtain ⟨k, rfl⟩ := Nat.exists_eq_add_of_le h
  rw [if_neg (by omega), Nat.mul_assoc, Nat.mul_assoc, ← Nat.pow_add, ← Nat.pow_add]
  congr 2
  omega

theorem magnitude_lt {bits : UInt64} (h : bits.toNat / 2 ^ 52 % 2 ^ 11 < 1023) :
    magnitude bits < unitsInOne := by
  have hfraction : bits.toNat % 2 ^ 52 < 2 ^ 52 := Nat.mod_lt _ (Nat.two_pow_pos 52)
  unfold magnitude unitsInOne
  dsimp only
  generalize bits.toNat / 2 ^ 52 % 2 ^ 11 = e at h
  generalize bits.toNat % 2 ^ 52 = f at hfraction
  generalize hunits : 1074 = n
  split
  · exact Nat.lt_of_lt_of_le hfraction (Nat.pow_le_pow_right Nat.two_pos (by omega))
  · calc (2 ^ 52 + f) * 2 ^ (e - 1)
        < 2 ^ 53 * 2 ^ (e - 1) := Nat.mul_lt_mul_of_pos_right (by omega) (Nat.two_pow_pos _)
      _ = 2 ^ (53 + (e - 1)) := (Nat.pow_add 2 53 (e - 1)).symm
      _ ≤ 2 ^ n := Nat.pow_le_pow_right (by decide) (by omega)

/-- The cast drops what is behind the point, where the result is in range. -/
theorem truncate_eq (bits : UInt64) :
    truncate bits =
      if (scaled bits).tdiv unitsInOne < 0 ∨ 2 ^ 64 ≤ (scaled bits).tdiv unitsInOne then none
      else some (UInt64.ofNat ((scaled bits).tdiv unitsInOne).toNat) := by
  have hdiv : (scaled bits).tdiv unitsInOne =
      if 2 ^ 63 ≤ bits.toNat then -((magnitude bits / unitsInOne : Nat) : Int)
      else ((magnitude bits / unitsInOne : Nat) : Int) := by
    unfold scaled
    split
    · rw [Int.neg_tdiv, Int.ofNat_tdiv]
    · rw [Int.ofNat_tdiv]
  rw [hdiv]
  unfold truncate
  dsimp only
  by_cases hsmall : bits.toNat / 2 ^ 52 % 2 ^ 11 < 1023
  · rw [if_pos hsmall, Nat.div_eq_of_lt (magnitude_lt hsmall)]
    split
    · rfl
    · rfl
  · have hle : 1023 ≤ bits.toNat / 2 ^ 52 % 2 ^ 11 := Nat.not_lt.mp hsmall
    have hmagnitude := magnitude_of_le hle
    have hquot : magnitude bits / unitsInOne = (2 ^ 52 + bits.toNat % 2 ^ 52) *
        2 ^ (bits.toNat / 2 ^ 52 % 2 ^ 11 - 1023) / 2 ^ 52 := by
      rw [← Nat.mul_div_mul_right _ _ (Nat.two_pow_pos 52), hmagnitude, Nat.mul_comm unitsInOne,
        Nat.mul_div_mul_right _ _ unitsInOne_pos]
    rw [if_neg hsmall, hquot]
    generalize bits.toNat / 2 ^ 52 % 2 ^ 11 = e at hle
    obtain ⟨k, rfl⟩ := Nat.exists_eq_add_of_le hle
    rw [Nat.add_sub_cancel_left]
    have hfraction : bits.toNat % 2 ^ 52 < 2 ^ 52 := Nat.mod_lt _ (Nat.two_pow_pos 52)
    generalize bits.toNat % 2 ^ 52 = f at hfraction
    have hlow : 2 ^ k ≤ (2 ^ 52 + f) * 2 ^ k / 2 ^ 52 := by
      rw [Nat.le_div_iff_mul_le (Nat.two_pow_pos 52), Nat.mul_comm]
      exact Nat.mul_le_mul_right _ (Nat.le_add_right _ _)
    have hhigh : (2 ^ 52 + f) * 2 ^ k / 2 ^ 52 < 2 ^ (k + 1) := by
      rw [Nat.div_lt_iff_lt_mul (Nat.two_pow_pos 52), ← Nat.pow_add]
      calc (2 ^ 52 + f) * 2 ^ k
          < 2 ^ 53 * 2 ^ k := Nat.mul_lt_mul_of_pos_right (by omega) (Nat.two_pow_pos _)
        _ = 2 ^ (k + 1 + 52) := by rw [← Nat.pow_add, Nat.add_comm, Nat.add_assoc]
    have hpos := Nat.two_pow_pos k
    generalize (2 ^ 52 + f) * 2 ^ k / 2 ^ 52 = q at hlow hhigh
    by_cases hsign : 2 ^ 63 ≤ bits.toNat
    · rw [if_pos (.inl hsign), if_pos hsign, if_pos (.inl (by omega))]
    · rw [if_neg hsign]
      by_cases hlarge : 1023 + 64 ≤ 1023 + k
      · have hmono : 2 ^ 64 ≤ 2 ^ k := Nat.pow_le_pow_right Nat.two_pos (by omega)
        rw [if_pos (.inr hlarge), if_pos (.inr (by omega))]
      · have hmono : 2 ^ (k + 1) ≤ 2 ^ 64 := Nat.pow_le_pow_right Nat.two_pos (by omega)
        rw [if_neg (by omega), if_neg (by omega)]
        rfl

theorem truncate_whole {bits : UInt64} {n : Nat} (hn : n < 2 ^ 64)
    (hvalue : scaled bits = n * unitsInOne) : truncate bits = some (UInt64.ofNat n) := by
  have hunit : (unitsInOne : Int) ≠ 0 := Int.natCast_ne_zero.mpr (Nat.ne_of_gt unitsInOne_pos)
  rw [truncate_eq, hvalue, Int.mul_tdiv_cancel _ hunit, if_neg (by omega)]
  rfl

theorem truncate_large {bits : UInt64} {n : Nat} (hn : 2 ^ 64 ≤ n)
    (hvalue : scaled bits = n * unitsInOne) : truncate bits = none := by
  have hunit : (unitsInOne : Int) ≠ 0 := Int.natCast_ne_zero.mpr (Nat.ne_of_gt unitsInOne_pos)
  rw [truncate_eq, hvalue, Int.mul_tdiv_cancel _ hunit, if_pos (.inr (by omega))]

/-- The digits of a whole number with exponent `k`. -/
theorem digits_of_whole {bits : UInt64} {n : Nat} (hsign : bits.toNat < 2 ^ 63) (hn : n ≠ 0)
    (hvalue : scaled bits = n * unitsInOne) :
    ∃ m, bits.toNat = (1023 + n.log2) * 2 ^ 52 + m - 2 ^ 52 ∧ 2 ^ 52 ≤ m ∧
      m * 2 ^ n.log2 = n * 2 ^ 52 := by
  have hmagnitude : magnitude bits = n * unitsInOne := by
    unfold scaled at hvalue
    rw [if_neg (by omega)] at hvalue
    exact_mod_cast hvalue
  have hle : 1023 ≤ bits.toNat / 2 ^ 52 % 2 ^ 11 := by
    by_contra hsmall
    have hlt := magnitude_lt (Nat.not_le.mp hsmall)
    rw [hmagnitude] at hlt
    exact absurd hlt (Nat.not_lt.mpr (Nat.le_mul_of_pos_left _ (Nat.pos_of_ne_zero hn)))
  have hdigits := magnitude_of_le hle
  have hbits : bits.toNat = bits.toNat / 2 ^ 52 % 2 ^ 11 * 2 ^ 52 + bits.toNat % 2 ^ 52 := by omega
  have hfraction : bits.toNat % 2 ^ 52 < 2 ^ 52 := Nat.mod_lt _ (Nat.two_pow_pos 52)
  generalize bits.toNat / 2 ^ 52 % 2 ^ 11 = e at hle hdigits hbits
  generalize bits.toNat % 2 ^ 52 = f at hdigits hbits hfraction
  obtain ⟨k, rfl⟩ := Nat.exists_eq_add_of_le hle
  rw [Nat.add_sub_cancel_left, hmagnitude, Nat.mul_right_comm] at hdigits
  have hscale : n * 2 ^ 52 = (2 ^ 52 + f) * 2 ^ k :=
    Nat.eq_of_mul_eq_mul_right unitsInOne_pos hdigits
  have hlow : 2 ^ k ≤ n := by
    refine Nat.le_of_mul_le_mul_right ?_ (Nat.two_pow_pos 52)
    rw [hscale, Nat.mul_comm]
    exact Nat.mul_le_mul_right _ (Nat.le_add_right _ _)
  have hhigh : n < 2 ^ (k + 1) := by
    refine Nat.lt_of_mul_lt_mul_right (a := 2 ^ 52) ?_
    rw [hscale]
    calc (2 ^ 52 + f) * 2 ^ k
        < 2 ^ 53 * 2 ^ k := Nat.mul_lt_mul_of_pos_right (by omega) (Nat.two_pow_pos _)
      _ = 2 ^ (k + 1) * 2 ^ 52 := by rw [← Nat.pow_add, ← Nat.pow_add]; congr 1; omega
  have hlog : n.log2 = k := (Nat.log2_eq_iff hn).mpr ⟨hlow, hhigh⟩
  rw [hlog]
  exact ⟨2 ^ 52 + f, by omega, Nat.le_add_right _ _, hscale.symm⟩

theorem zero_of_scaled {bits : UInt64} (hsign : bits.toNat < 2 ^ 63) (h : scaled bits = 0) :
    bits = 0 := by
  unfold scaled at h
  rw [if_neg (by omega), Int.natCast_eq_zero] at h
  unfold magnitude at h
  dsimp only at h
  split at h
  next he =>
    refine UInt64.toNat_inj.mp ?_
    change bits.toNat = 0
    omega
  next =>
    have hpos : 0 < (2 ^ 52 + bits.toNat % 2 ^ 52) * 2 ^ (bits.toNat / 2 ^ 52 % 2 ^ 11 - 1) :=
      Nat.mul_pos (by omega) (Nat.two_pow_pos _)
    omega

/-- A whole number that is a double is its own nearest double. -/
theorem ofUint64_whole {bits : UInt64} {n : Nat} (hsign : bits.toNat < 2 ^ 63) (hlt : n < 2 ^ 64)
    (hvalue : scaled bits = n * unitsInOne) : ofUint64 (UInt64.ofNat n) = bits := by
  have hword : (UInt64.ofNat n).toNat = n := by
    rw [UInt64.toNat_ofNat']
    exact Nat.mod_eq_of_lt hlt
  by_cases h0 : n = 0
  · subst h0
    rw [Nat.cast_zero, Int.zero_mul] at hvalue
    rw [(zero_of_scaled hsign hvalue : bits = 0)]
    rfl
  obtain ⟨m, hbits, hm, hscale⟩ := digits_of_whole hsign h0 hvalue
  have hne : UInt64.ofNat n ≠ 0 := fun h => h0 (hword.symm.trans (congrArg UInt64.toNat h))
  unfold ofUint64
  rw [if_neg hne, hword]
  dsimp only
  have hdigits : (if n.log2 ≤ 52 then n * 2 ^ (52 - n.log2)
      else if 2 ^ (n.log2 - 52) < 2 * (n % 2 ^ (n.log2 - 52)) ∨
          2 * (n % 2 ^ (n.log2 - 52)) = 2 ^ (n.log2 - 52) ∧ n / 2 ^ (n.log2 - 52) % 2 = 1 then
        n / 2 ^ (n.log2 - 52) + 1
      else n / 2 ^ (n.log2 - 52)) = m := by
    generalize n.log2 = k at hscale
    split
    next hk =>
      refine Nat.eq_of_mul_eq_mul_right (Nat.two_pow_pos k) ?_
      rw [hscale, Nat.mul_assoc, ← Nat.pow_add, Nat.sub_add_cancel hk]
    next hk =>
      obtain ⟨j, rfl⟩ := Nat.exists_eq_add_of_lt (Nat.not_le.mp hk)
      have hunit := Nat.two_pow_pos (j + 1)
      have hshift : 52 + j + 1 - 52 = j + 1 := by omega
      have hn : n = m * 2 ^ (j + 1) := by
        refine Nat.eq_of_mul_eq_mul_right (Nat.two_pow_pos 52) ?_
        rw [← hscale, Nat.mul_assoc, ← Nat.pow_add]
        congr 2
        omega
      rw [hshift, hn, Nat.mul_mod_left, Nat.mul_div_cancel _ hunit, if_neg (by omega)]
  rw [hdigits, ← hbits, UInt64.ofNat_toNat]

theorem scaled_of_digits {bits : UInt64} {k d m : Nat} (hk : k ≤ 64)
    (hbits : bits.toNat = (1023 + k) * 2 ^ 52 + d - 2 ^ 52) (hd : 2 ^ 52 ≤ d) (hd' : d < 2 ^ 53)
    (hm : d * 2 ^ k = m * 2 ^ 52) :
    bits.toNat < 2 ^ 63 ∧ scaled bits = m * unitsInOne := by
  have hsign : bits.toNat < 2 ^ 63 := by omega
  have hexponent : bits.toNat / 2 ^ 52 % 2 ^ 11 = 1023 + k := by omega
  have hfraction : 2 ^ 52 + bits.toNat % 2 ^ 52 = d := by omega
  have hmagnitude := @magnitude_of_le bits (by omega)
  rw [hexponent, hfraction, Nat.add_sub_cancel_left, hm, Nat.mul_right_comm] at hmagnitude
  have hunits : magnitude bits = m * unitsInOne :=
    Nat.eq_of_mul_eq_mul_right (Nat.two_pow_pos 52) hmagnitude
  refine ⟨hsign, ?_⟩
  unfold scaled
  rw [if_neg (by omega), hunits]
  exact Nat.cast_mul m unitsInOne

theorem digits_fit {v k : Nat} (hlow : 2 ^ k ≤ v) (hhigh : v < 2 ^ (k + 1)) (hk : k ≤ 52) :
    2 ^ 52 ≤ v * 2 ^ (52 - k) ∧ v * 2 ^ (52 - k) < 2 ^ 53 := by
  constructor
  · calc 2 ^ 52 = 2 ^ k * 2 ^ (52 - k) := by rw [← Nat.pow_add]; congr 1; omega
      _ ≤ v * 2 ^ (52 - k) := Nat.mul_le_mul_right _ hlow
  · calc v * 2 ^ (52 - k) < 2 ^ (k + 1) * 2 ^ (52 - k) :=
          Nat.mul_lt_mul_of_pos_right hhigh (Nat.two_pow_pos _)
      _ = 2 ^ 53 := by rw [← Nat.pow_add]; congr 1; omega

theorem digits_cut {v j : Nat} (hlow : 2 ^ (52 + j + 1) ≤ v) (hhigh : v < 2 ^ (52 + j + 2)) :
    2 ^ 52 ≤ v / 2 ^ (j + 1) ∧ v / 2 ^ (j + 1) < 2 ^ 53 := by
  rw [Nat.le_div_iff_mul_le (Nat.two_pow_pos _), Nat.div_lt_iff_lt_mul (Nat.two_pow_pos _),
    ← Nat.pow_add, ← Nat.pow_add]
  exact ⟨hlow, Nat.lt_of_lt_of_le hhigh (Nat.pow_le_pow_right Nat.two_pos (by omega))⟩

/-- Digits cut off and rounded are a whole number, also where they become a power of two. -/
theorem rounded_scaled {d j : Nat} (hj : 52 + j + 1 < 64) (hfloor : 2 ^ 52 ≤ d)
    (hceil : d ≤ 2 ^ 53) :
    (UInt64.ofNat ((1023 + (52 + j + 1)) * 2 ^ 52 + d - 2 ^ 52)).toNat < 2 ^ 63 ∧ ∃ m : Nat,
      scaled (UInt64.ofNat ((1023 + (52 + j + 1)) * 2 ^ 52 + d - 2 ^ 52)) = m * unitsInOne := by
  by_cases hcarry : d < 2 ^ 53
  · have hscale : d * 2 ^ (52 + j + 1) = d * 2 ^ (j + 1) * 2 ^ 52 := by
      rw [Nat.mul_assoc, ← Nat.pow_add]
      congr 2
      omega
    obtain ⟨hsign, hscaled⟩ := @scaled_of_digits (UInt64.ofNat
      ((1023 + (52 + j + 1)) * 2 ^ 52 + d - 2 ^ 52)) _ _ _ (by omega)
      (by rw [UInt64.toNat_ofNat']; omega) hfloor hcarry hscale
    exact ⟨hsign, _, hscaled⟩
  · have hfull : d = 2 ^ 53 := by omega
    have hscale : 2 ^ 52 * 2 ^ (52 + j + 2) = 2 ^ (52 + j + 2) * 2 ^ 52 := Nat.mul_comm _ _
    obtain ⟨hsign, hscaled⟩ := @scaled_of_digits (UInt64.ofNat
      ((1023 + (52 + j + 1)) * 2 ^ 52 + d - 2 ^ 52)) _ _ _ (by omega)
      (by rw [UInt64.toNat_ofNat']; omega) (Nat.le_refl _) (by decide) hscale
    exact ⟨hsign, _, hscaled⟩

/-- The double nearest to an integer is a whole number, and none below zero. -/
theorem ofUint64_scaled (n : UInt64) :
    (ofUint64 n).toNat < 2 ^ 63 ∧ ∃ m : Nat, scaled (ofUint64 n) = m * unitsInOne := by
  by_cases h0 : n = 0
  · subst h0
    refine ⟨by decide, 0, ?_⟩
    rw [Nat.cast_zero, Int.zero_mul]
    decide
  have hpos : n.toNat ≠ 0 := fun hz => h0 (UInt64.toNat_inj.mp hz)
  have hlow : 2 ^ n.toNat.log2 ≤ n.toNat := Nat.log2_self_le hpos
  have hhigh : n.toNat < 2 ^ (n.toNat.log2 + 1) := Nat.lt_log2_self
  have hlog : n.toNat.log2 < 64 := (Nat.log2_lt hpos).mpr n.toNat_lt
  unfold ofUint64
  rw [if_neg h0]
  dsimp only
  generalize n.toNat = v at hlow hhigh hlog
  generalize v.log2 = k at hlow hhigh hlog
  split
  next hk =>
    obtain ⟨hfloor, hceil⟩ := digits_fit hlow hhigh hk
    have hscale : v * 2 ^ (52 - k) * 2 ^ k = v * 2 ^ 52 := by
      rw [Nat.mul_assoc, ← Nat.pow_add, Nat.sub_add_cancel hk]
    obtain ⟨hsign, hscaled⟩ := @scaled_of_digits (UInt64.ofNat
      ((1023 + k) * 2 ^ 52 + v * 2 ^ (52 - k) - 2 ^ 52)) _ _ _ (by omega)
      (by rw [UInt64.toNat_ofNat']; omega) hfloor hceil hscale
    exact ⟨hsign, _, hscaled⟩
  next hk =>
    obtain ⟨j, rfl⟩ := Nat.exists_eq_add_of_lt (Nat.not_le.mp hk)
    have hshift : 52 + j + 1 - 52 = j + 1 := by omega
    rw [hshift]
    obtain ⟨hfloor, hceil⟩ := digits_cut hlow hhigh
    split
    · exact rounded_scaled hlog (by omega) (by omega)
    · exact rounded_scaled hlog hfloor (by omega)

end Lib.Double
