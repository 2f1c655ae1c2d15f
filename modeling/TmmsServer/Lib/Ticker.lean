import Mathlib.Data.List.Chain

/-!
# Tickers

A ticker is read now and then. It ticks at a reading a period or more behind its last
tick, and goes on from that reading; what the reading was late by is lost.
-/
namespace Lib.Ticker

/-- The ticks at the readings behind a tick. -/
def ticks (period last : Int) : List Int → Nat
  | [] => 0
  | now :: times => if now - last < period then ticks period last times else ticks period now times + 1

/-- How far the ticks are behind the last reading: what each of them was late by, and the time since the last. -/
def behind (period last now : Int) : List Int → Int
  | [] => now - last
  | now :: times =>
      if now - last < period then behind period last now times
      else now - last - period + behind period now now times

variable {period last now : Int} {times : List Int}

/-- No time is lost but by late ticks, by induction on the readings. -/
theorem ticks_mul_add_behind (period last now : Int) (times : List Int) :
    period * ticks period last times + behind period last now times = times.getLastD now - last := by
  induction times generalizing last now with
  | nil =>
      unfold ticks behind
      rw [Int.natCast_zero, Int.mul_zero, Int.zero_add, List.getLastD_nil]
  | cons t times ih =>
      unfold ticks behind
      rw [List.getLastD_cons]
      split
      · exact ih last t
      · have hrest := ih t t
        rw [Int.natCast_add, Int.mul_add, Int.natCast_one, Int.mul_one]
        omega

theorem behind_nonneg (hlast : last ≤ now) (h : (now :: times).IsChain (· ≤ ·)) :
    0 ≤ behind period last now times := by
  induction times generalizing last now with
  | nil => exact Int.sub_nonneg_of_le hlast
  | cons t times ih =>
      obtain ⟨hnow, hrest⟩ := List.isChain_cons_cons.mp h
      unfold behind
      split
      · exact ih (Int.le_trans hlast hnow) hrest
      · have hbehind := ih (Int.le_refl t) hrest
        omega

theorem ticks_le (hperiod : 0 < period) (h : (last :: times).IsChain (· ≤ ·)) :
    (ticks period last times : Int) ≤ (times.getLastD last - last) / period := by
  have hbehind : 0 ≤ behind period last last times := behind_nonneg (Int.le_refl last) h
  rw [Int.le_ediv_iff_mul_le hperiod, Int.mul_comm, ← ticks_mul_add_behind period last last]
  exact Int.le_add_of_nonneg_right hbehind

theorem ticks_ge_iff (hperiod : 0 < period) :
    (times.getLastD last - last) / period - 1 ≤ ticks period last times ↔
      behind period last last times < 2 * period := by
  rw [← ticks_mul_add_behind period last last,
    Int.mul_add_ediv_left _ _ (Int.ne_of_gt hperiod), ← Int.ediv_lt_iff_lt_mul hperiod]
  omega

/-- Readings with the same gap between them. -/
def readings (gap last : Int) : Nat → List Int
  | 0 => []
  | n + 1 => (last + gap) :: readings gap (last + gap) n

variable {gap : Int}

theorem readings_isChain (n : Nat) : (last :: readings gap last n).IsChain fun a b => b = a + gap := by
  induction n generalizing last with
  | zero => exact List.isChain_singleton last
  | succ n ih => exact List.isChain_cons_cons.mpr ⟨rfl, ih⟩

theorem readings_last (n : Nat) : (readings gap last n).getLastD last = last + n * gap := by
  induction n generalizing last with
  | zero =>
      rw [Int.natCast_zero, Int.zero_mul, Int.add_zero]
      rfl
  | succ n ih =>
      unfold readings
      rw [List.getLastD_cons, ih, Int.natCast_add, Int.add_mul]
      omega

theorem ticks_readings (hgap : gap < period) (hperiod : period ≤ 2 * gap) (n : Nat) :
    ticks period last (readings gap last (2 * n)) = n := by
  induction n generalizing last with
  | zero => rfl
  | succ n ih =>
      have hearly : last + gap - last < period := by omega
      have hlate : ¬ last + gap + gap - last < period := by omega
      rw [Nat.mul_succ, readings, readings, ticks, if_pos hearly, ticks, if_neg hlate, ih]

end Lib.Ticker
