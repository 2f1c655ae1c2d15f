import Mathlib.Data.List.Basic
import Mathlib.Tactic.Ring

/-!
# Machine words and their bytes

Fixed-width words as byte strings in both byte orders, and the two conversions
a C++ program applies to 32-bit quantities. Nothing here depends on a program.
-/
namespace Lib.Words

/-- The `n` low bytes of `v`, most significant first. -/
def beBytes : Nat → Nat → List UInt8
  | 0, _ => []
  | n + 1, v => UInt8.ofNat (v / 256 ^ n) :: beBytes n v

/-- The `n` low bytes of `v`, least significant first. -/
def leBytes : Nat → Nat → List UInt8
  | 0, _ => []
  | n + 1, v => UInt8.ofNat v :: leBytes n (v / 256)

def beValue (bs : List UInt8) : Nat := bs.foldl (fun acc b => acc * 256 + b.toNat) 0

def leValue : List UInt8 → Nat
  | [] => 0
  | b :: bs => b.toNat + 256 * leValue bs

@[simp] theorem beBytes_length (n v : Nat) : (beBytes n v).length = n := by
  induction n with
  | zero => rfl
  | succ n ih => simp only [beBytes, List.length_cons, ih]

@[simp] theorem leBytes_length (n v : Nat) : (leBytes n v).length = n := by
  induction n generalizing v with
  | zero => rfl
  | succ n ih => simp only [leBytes, List.length_cons, ih]

theorem beFold_beBytes (n v acc : Nat) :
    (beBytes n v).foldl (fun acc b => acc * 256 + b.toNat) acc = acc * 256 ^ n + v % 256 ^ n := by
  induction n generalizing acc with
  | zero => simp [beBytes, Nat.mod_one]
  | succ n ih =>
      have hsplit : v % 256 ^ (n + 1) = (v / 256 ^ n % 256) * 256 ^ n + v % 256 ^ n := by
        rw [Nat.pow_succ, Nat.mod_mul]
        ring
      simp only [beBytes, List.foldl_cons, UInt8.toNat_ofNat']
      rw [ih, hsplit, Nat.pow_succ]
      ring

theorem beValue_beBytes (n v : Nat) : beValue (beBytes n v) = v % 256 ^ n := by
  simpa [beValue] using beFold_beBytes n v 0

theorem leValue_leBytes (n v : Nat) : leValue (leBytes n v) = v % 256 ^ n := by
  induction n generalizing v with
  | zero => simp [leBytes, leValue, Nat.mod_one]
  | succ n ih =>
      have hpow : 256 ^ (n + 1) = 256 * 256 ^ n := by ring
      rw [leBytes, leValue, ih, UInt8.toNat_ofNat', hpow, Nat.mod_mul]

theorem beFold_lt (bs : List UInt8) (acc : Nat) :
    bs.foldl (fun acc b => acc * 256 + b.toNat) acc < (acc + 1) * 256 ^ bs.length := by
  induction bs generalizing acc with
  | nil => simp
  | cons b bs ih =>
      have hb := b.toNat_lt
      have hstep : acc * 256 + b.toNat + 1 ≤ (acc + 1) * 256 := by omega
      calc _ < (acc * 256 + b.toNat + 1) * 256 ^ bs.length := ih _
        _ ≤ (acc + 1) * 256 * 256 ^ bs.length := Nat.mul_le_mul_right _ hstep
        _ = (acc + 1) * 256 ^ (b :: bs).length := by
            rw [List.length_cons, Nat.pow_succ, Nat.mul_assoc, Nat.mul_comm 256]

theorem beValue_lt (bs : List UInt8) : beValue bs < 256 ^ bs.length := by
  simpa [beValue] using beFold_lt bs 0

/-- Conversion to a signed 32-bit integer. -/
def int32 (x : Int) : Int := x.bmod (2 ^ 32)

/-- Conversion to a signed 64-bit integer. -/
def int64 (x : Int) : Int := x.bmod (2 ^ 64)

/-- Conversion to an unsigned 32-bit integer. -/
def uint32 (x : Int) : Nat := (x % 2 ^ 32).toNat

theorem int32_of_lt {x : Int} (h0 : -2 ^ 31 ≤ x) (h : x < 2 ^ 31) : int32 x = x := by
  unfold int32
  rw [Int.bmod_def]
  split <;> omega

theorem int64_of_lt {x : Int} (h0 : -2 ^ 63 ≤ x) (h : x < 2 ^ 63) : int64 x = x := by
  unfold int64
  rw [Int.bmod_def]
  split <;> omega

theorem uint32_of_lt {x : Int} (h0 : 0 ≤ x) (h : x < 2 ^ 32) : uint32 x = x.toNat := by
  unfold uint32
  rw [Int.emod_eq_of_lt h0 h]

theorem uint32_of_neg {x : Int} (h0 : x < 0) (h : -2 ^ 32 ≤ x) : uint32 x = (x + 2 ^ 32).toNat := by
  unfold uint32
  congr 1
  omega

end Lib.Words
