import Mathlib.Logic.Function.Basic
import TmmsServer.Lib.Wheel

/-!
# The timing wheel

`TimingWheel` with its four wheels. An entry is a shared pointer, named by a
number; whoever inserts it keeps no reference, and its destructor inserts nothing.
The seconds since the start fit `tick_`.
-/
namespace TmmsServer
open Lib

def kTimingMinute : Nat := 60
def kTimingHour : Nat := 60 * 60
def kTimingDay : Nat := 60 * 60 * 24

theorem minute_of_hour {n : Nat} (h : n % kTimingHour = 0) : n % kTimingMinute = 0 := by
  unfold kTimingHour at h
  unfold kTimingMinute
  omega

theorem minute_of_day {n : Nat} (h : n % kTimingDay = 0) : n % kTimingMinute = 0 := by
  unfold kTimingDay at h
  unfold kTimingMinute
  omega

inductive TimingType where
  | second
  | minute
  | hour
  | day
  deriving DecidableEq, Repr

/-- The number of slots of a wheel. -/
def TimingType.size : TimingType → Nat
  | .second => 60
  | .minute => 60
  | .hour => 24
  | .day => 30

/-- What a slot holds: an entry, or a callback entry whose destructor inserts the entry again. -/
inductive WheelItem where
  | entry (e : Nat)
  | callback (second : Nat) (e : Nat)
  deriving DecidableEq, Repr

/-- The entry an item refers to. -/
def WheelItem.owned : WheelItem → Nat
  | .entry e => e
  | .callback _ e => e

/-- A slot is a set of pointers; a callback entry is always a new one. -/
def emplace (item : WheelItem) (slot : List WheelItem) : List WheelItem :=
  match item with
  | .entry _ => if item ∈ slot then slot else slot ++ [item]
  | .callback _ _ => slot ++ [item]

structure TimingWheel where
  wheels : (t : TimingType) → Wheel WheelItem t.size := fun t => .empty t.size
  lastTs : Int := 0
  tick : Nat := 0

namespace TimingWheel

def put (w : TimingWheel) (t : TimingType) (i : Nat) (item : WheelItem) : TimingWheel :=
  { w with wheels := Function.update w.wheels t ((w.wheels t).modify i (emplace item)) }

def insertSecondEntry (w : TimingWheel) (delay e : Nat) : TimingWheel :=
  w.put .second (delay - 1) (.entry e)

def insertMinuteEntry (w : TimingWheel) (delay e : Nat) : TimingWheel :=
  let minute := delay / kTimingMinute
  let second := delay % kTimingMinute
  w.put .minute (minute - 1) (.callback second e)

def insertHourEntry (w : TimingWheel) (delay e : Nat) : TimingWheel :=
  let hour := delay / kTimingHour
  let second := delay % kTimingHour
  w.put .hour (hour - 1) (.callback second e)

def insertDayEntry (w : TimingWheel) (delay e : Nat) : TimingWheel :=
  let day := delay / kTimingDay
  let second := delay % kTimingDay
  w.put .day (day - 1) (.callback second e)

def insertEntry (w : TimingWheel) (delay e : Nat) : TimingWheel :=
  if delay = 0 then w
  else if delay < kTimingMinute then w.insertSecondEntry delay e
  else if delay < kTimingHour then w.insertMinuteEntry delay e
  else if delay < kTimingDay then w.insertHourEntry delay e
  else if 30 < delay / kTimingDay then w
  else w.insertDayEntry delay e

/-- The last reference to an item goes. -/
def destroy (w : TimingWheel) : WheelItem → TimingWheel
  | .entry _ => w
  | .callback second e => w.insertEntry second e

/-- `PopUp`: the front slot is destroyed when the wheel has turned. -/
def popUp (w : TimingWheel) (t : TimingType) : TimingWheel :=
  (w.wheels t).front.foldl destroy { w with wheels := Function.update w.wheels t (w.wheels t).turn }

def onTimer (w : TimingWheel) (now : Int) : TimingWheel :=
  let w := if w.lastTs = 0 then { w with lastTs := now } else w
  if now - w.lastTs < 1000 then w
  else
    let w := { w with lastTs := now, tick := w.tick + 1 }
    let w := w.popUp .second
    if w.tick % kTimingMinute = 0 then w.popUp .minute
    else if w.tick % kTimingHour = 0 then w.popUp .hour
    else if w.tick % kTimingDay = 0 then w.popUp .day
    else w

end TimingWheel

/-- A place in the wheels and the item there. -/
structure Spot where
  type : TimingType
  slot : Nat
  item : WheelItem
  deriving DecidableEq

/-- Where `InsertEntry` puts an entry, if anywhere. -/
def place (delay e : Nat) : Option Spot :=
  if delay = 0 then none
  else if delay < kTimingMinute then some ⟨.second, delay - 1, .entry e⟩
  else if delay < kTimingHour then some ⟨.minute, delay / kTimingMinute - 1, .callback (delay % kTimingMinute) e⟩
  else if delay < kTimingDay then some ⟨.hour, delay / kTimingHour - 1, .callback (delay % kTimingHour) e⟩
  else if 30 < delay / kTimingDay then none
  else some ⟨.day, delay / kTimingDay - 1, .callback (delay % kTimingDay) e⟩

/-- Where the entry of an item goes when the item is destroyed. -/
def WheelItem.falls : WheelItem → Option Spot
  | .entry _ => none
  | .callback second e => place second e

/-- What becomes of a spot when wheel `t` turns. -/
def Spot.pop (t : TimingType) (x : Spot) : Option Spot :=
  if x.type = t then
    match x.slot with
    | 0 => x.item.falls
    | i + 1 => some { x with slot := i }
  else some x

theorem mem_emplace {item a : WheelItem} {slot : List WheelItem} :
    a ∈ emplace item slot ↔ a ∈ slot ∨ a = item := by
  cases item with
  | entry e =>
      unfold emplace
      dsimp only
      split
      next hmem => exact ⟨.inl, fun h => h.elim id fun ha => ha ▸ hmem⟩
      next => rw [List.mem_append, List.mem_singleton]
  | callback second e =>
      unfold emplace
      rw [List.mem_append, List.mem_singleton]

theorem place_slot {delay e : Nat} {x : Spot} (h : place delay e = some x) :
    x.slot < x.type.size := by
  unfold place kTimingMinute kTimingHour kTimingDay at h
  repeat' split at h
  all_goals cases h
  all_goals
    dsimp only [TimingType.size]
    omega

theorem place_owned {delay e : Nat} {x : Spot} (h : place delay e = some x) : x.item.owned = e := by
  unfold place at h
  repeat' split at h
  all_goals cases h
  all_goals rfl

theorem pop_owned {t : TimingType} {x y : Spot} (h : x.pop t = some y) :
    y.item.owned = x.item.owned := by
  obtain ⟨type, slot, item⟩ := x
  unfold Spot.pop at h
  dsimp only at h
  split at h
  next =>
    cases slot with
    | zero =>
        cases item with
        | entry e => exact absurd h nofun
        | callback second e => exact place_owned h
    | succ i =>
        obtain rfl := Option.some.inj h
        rfl
  next =>
    obtain rfl := Option.some.inj h
    rfl

namespace TimingWheel

/-- The item is in its place. -/
def Has (w : TimingWheel) (x : Spot) : Prop := (w.wheels x.type).Mem x.slot x.item

theorem has_put {w : TimingWheel} {x y : Spot} (h : y.slot < y.type.size) :
    (w.put y.type y.slot y.item).Has x ↔ w.Has x ∨ y = x := by
  obtain ⟨t, i, item⟩ := y
  obtain ⟨t', i', item'⟩ := x
  unfold Has put
  dsimp only
  by_cases ht : t' = t
  · subst ht
    rw [Function.update_self, Wheel.mem_modify h fun slot => mem_emplace]
    refine or_congr_right ⟨?_, ?_⟩
    · rintro ⟨rfl, rfl⟩
      rfl
    · intro heq
      cases heq
      exact ⟨rfl, rfl⟩
  · rw [Function.update_of_ne ht]
    refine ⟨.inl, fun h => h.elim id fun heq => ?_⟩
    cases heq
    exact absurd rfl ht

theorem insertEntry_eq (w : TimingWheel) (delay e : Nat) :
    w.insertEntry delay e = (place delay e).elim w fun x => w.put x.type x.slot x.item := by
  unfold insertEntry place
  by_cases h0 : delay = 0
  · rw [if_pos h0, if_pos h0]
    rfl
  by_cases hs : delay < kTimingMinute
  · rw [if_neg h0, if_neg h0, if_pos hs, if_pos hs]
    rfl
  by_cases hm : delay < kTimingHour
  · rw [if_neg h0, if_neg h0, if_neg hs, if_neg hs, if_pos hm, if_pos hm]
    rfl
  by_cases hh : delay < kTimingDay
  · rw [if_neg h0, if_neg h0, if_neg hs, if_neg hs, if_neg hm, if_neg hm, if_pos hh, if_pos hh]
    rfl
  rw [if_neg h0, if_neg h0, if_neg hs, if_neg hs, if_neg hm, if_neg hm, if_neg hh, if_neg hh]
  split
  · rfl
  · rfl

theorem has_insertEntry {w : TimingWheel} {delay e : Nat} {x : Spot} :
    (w.insertEntry delay e).Has x ↔ w.Has x ∨ place delay e = some x := by
  rw [insertEntry_eq]
  cases h : place delay e with
  | none => exact ⟨.inl, fun h => h.elim id nofun⟩
  | some y =>
      rw [Option.some.injEq]
      exact has_put (place_slot h)

theorem has_destroy {w : TimingWheel} {item : WheelItem} {x : Spot} :
    (w.destroy item).Has x ↔ w.Has x ∨ item.falls = some x := by
  cases item with
  | entry e => exact ⟨.inl, fun h => h.elim id nofun⟩
  | callback second e => exact has_insertEntry

theorem has_foldl_destroy {w : TimingWheel} {items : List WheelItem} {x : Spot} :
    (items.foldl destroy w).Has x ↔ w.Has x ∨ ∃ item ∈ items, item.falls = some x := by
  induction items generalizing w with
  | nil => exact ⟨.inl, fun h => h.elim id fun ⟨_, h, _⟩ => absurd h List.not_mem_nil⟩
  | cons item items ih =>
      rw [List.foldl_cons, ih, has_destroy, or_assoc, List.exists_mem_cons_iff]

theorem has_turn {w : TimingWheel} {t : TimingType} {y : Spot} :
    ({ w with wheels := Function.update w.wheels t (w.wheels t).turn } : TimingWheel).Has y ↔
      w.Has (if y.type = t then { y with slot := y.slot + 1 } else y) := by
  obtain ⟨t', i', item'⟩ := y
  unfold Has
  dsimp only
  by_cases ht : t' = t
  · subst ht
    rw [Function.update_self, if_pos rfl]
    exact Wheel.mem_turn
  · rw [Function.update_of_ne ht, if_neg ht]

/-- `PopUp` moves what is in the wheel to the front, and lets the front slot fall. -/
theorem has_popUp {w : TimingWheel} {t : TimingType} {y : Spot} :
    (w.popUp t).Has y ↔ ∃ x, w.Has x ∧ x.pop t = some y := by
  unfold popUp
  rw [has_foldl_destroy, has_turn]
  constructor
  · rintro (h | ⟨item, hmem, hfalls⟩)
    · refine ⟨_, h, ?_⟩
      by_cases ht : y.type = t
      · rw [if_pos ht]
        exact if_pos ht
      · rw [if_neg ht]
        exact if_neg ht
    · refine ⟨⟨t, 0, item⟩, Wheel.mem_front.mp hmem, ?_⟩
      unfold Spot.pop
      rw [if_pos rfl]
      exact hfalls
  · rintro ⟨⟨t', i, item⟩, hx, hpop⟩
    unfold Spot.pop at hpop
    dsimp only at hpop
    by_cases ht : t' = t
    · subst ht
      rw [if_pos rfl] at hpop
      cases i with
      | zero => exact .inr ⟨item, Wheel.mem_front.mpr hx, hpop⟩
      | succ i =>
          obtain rfl := Option.some.inj hpop
          left
          rw [if_pos rfl]
          exact hx
    · rw [if_neg ht] at hpop
      obtain rfl := Option.some.inj hpop
      left
      rw [if_neg ht]
      exact hx

end TimingWheel
end TmmsServer
