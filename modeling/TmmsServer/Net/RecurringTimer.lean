import Mathlib.Data.Stream.Init
import TmmsServer.Lib.Double
import TmmsServer.Net.WheelAccuracy

/-!
# Recurring timers

`AddTimer` and `AddConditionTimer`. A timer runs in the destructor of its entry, which
registers it again; where `InsertEntry` keeps no reference the new entry is destroyed
at once. The callbacks themselves touch no timer.
-/
namespace TmmsServer
open Lib

/-- What the destructor of a callback entry runs: the callback (named by a number), the interval in whole
seconds, whether it is registered again, and what the condition says each time it is asked. -/
structure Timer where
  id : Nat
  delay : UInt32
  recurring : Bool
  alive : Stream' Bool

/-- The wheels with the timers that their entries are, and how often each callback has run. -/
structure Timers where
  wheel : TimingWheel := {}
  timers : Nat → Option Timer := fun _ => none
  next : Nat := 0
  ran : Nat → Nat := fun _ => 0

namespace Timers

/-- A new entry for the timer, inserted. -/
def enter (s : Timers) (t : Timer) : Timers :=
  { s with
    wheel := s.wheel.insertEntry t.delay.toNat s.next
    timers := Function.update s.timers s.next (some t)
    next := s.next + 1 }

/-- The entry is gone. -/
def spend (s : Timers) (e : Nat) : Timers := { s with timers := Function.update s.timers e none }

/-- The callback has run. -/
def count (s : Timers) (id : Nat) : Timers := { s with ran := Function.update s.ran id (s.ran id + 1) }

/-- What the destructor of a timer's entry does; `again` is the registration. -/
def fire (again : Timers → Timer → Option Timers) (s : Timers) (t : Timer) : Option Timers :=
  if t.alive.head then
    let s := s.count t.id
    if t.recurring then again s { t with alive := t.alive.tail } else some s
  else some s

/-- A reference to the entry goes. -/
def release (again : Timers → Timer → Option Timers) (s : Timers) (e : Nat) : Option Timers :=
  -- no two references to a timer's entry are in one slot, so the rest of the slot holds none
  if s.wheel.owns e then some s
  else
    match s.timers e with
    | none => some s
    | some t => fire again (s.spend e) t

/-- The registration of a timer, with room for so many others inside it. -/
def register : Nat → Timers → Timer → Option Timers
  | 0, s, t => (s.enter t).release (fun _ _ => none) s.next
  | fuel + 1, s, t => (s.enter t).release (register fuel) s.next

/-- The interval, a double, as the `uint32_t` seconds of `InsertEntry`, where it has room there. -/
def seconds (interval : UInt64) : Option UInt32 :=
  (Double.truncate interval).bind fun n => if n.toNat < 2 ^ 32 then some n.toUInt32 else none

/-- `AddTimer`, in either overload. -/
def addTimer (fuel : Nat) (s : Timers) (interval : UInt64) (id : Nat) (recurring : Bool) : Option Timers :=
  (seconds interval).bind fun delay => s.register fuel ⟨id, delay, recurring, Stream'.const true⟩

/-- `AddConditionTimer`, in either overload; `alive` is what `weak_cond.lock()` gives. -/
def addConditionTimer (fuel : Nat) (s : Timers) (interval : UInt64) (id : Nat) (alive : Stream' Bool)
    (recurring : Bool) : Option Timers :=
  (seconds interval).bind fun delay => s.register fuel ⟨id, delay, recurring, alive⟩

/-- An item of a slot is destroyed, and with it its reference to an entry. -/
def destroy (fuel : Nat) (s : Timers) (item : WheelItem) : Option Timers :=
  ({ s with wheel := s.wheel.destroy item } : Timers).release (register fuel) item.owned

/-- The front slot of a wheel is swapped out. -/
def turn (s : Timers) (t : TimingType) : Timers :=
  { s with wheel := { s.wheel with wheels := Function.update s.wheel.wheels t (s.wheel.wheels t).turn } }

/-- `PopUp`. -/
def popUp (fuel : Nat) (s : Timers) (t : TimingType) : Option Timers :=
  (s.wheel.wheels t).front.foldlM (destroy fuel) (s.turn t)

/-- `OnTimer`. -/
def onTimer (fuel : Nat) (s : Timers) (now : Int) : Option Timers :=
  let w := if s.wheel.lastTs = 0 then { s.wheel with lastTs := now } else s.wheel
  if now - w.lastTs < 1000 then some { s with wheel := w }
  else do
    let s ← ({ s with wheel := { w with lastTs := now, tick := w.tick + 1 } } : Timers).popUp fuel .second
    if s.wheel.tick % kTimingMinute = 0 then s.popUp fuel .minute
    else if s.wheel.tick % kTimingHour = 0 then s.popUp fuel .hour
    else if s.wheel.tick % kTimingDay = 0 then s.popUp fuel .day
    else some s

end Timers

/-- The delays that `InsertEntry` keeps an entry for. -/
def Kept (delay : Nat) : Prop := 1 ≤ delay ∧ delay < 31 * kTimingDay

theorem place_isSome_iff (delay e : Nat) : (place delay e).isSome = true ↔ Kept delay := by
  unfold place Kept kTimingMinute kTimingHour kTimingDay
  split
  next h =>
    subst h
    exact iff_of_false Bool.false_ne_true (by omega)
  next h =>
    split
    next => exact iff_of_true rfl ⟨by omega, by omega⟩
    next =>
      split
      next => exact iff_of_true rfl ⟨by omega, by omega⟩
      next =>
        split
        next => exact iff_of_true rfl ⟨by omega, by omega⟩
        next =>
          split
          next => exact iff_of_false Bool.false_ne_true (by omega)
          next => exact iff_of_true rfl ⟨by omega, by omega⟩

/-- Where a timer's entry can be: in the wheel of seconds for the odd seconds of its delay, in the wheel of
minutes with these still to come, or further out. -/
def Timer.Fits (t : Timer) (e : Nat) (x : Spot) : Prop :=
  match x.type with
  | .second => x.item = .entry e ∧ t.delay.toNat % kTimingMinute ≠ 0
  | .minute => x.item = .callback (t.delay.toNat % kTimingMinute) e
  | .hour | .day => True

theorem place_fits {t : Timer} {e : Nat} {x : Spot} (h : place t.delay.toNat e = some x) : t.Fits e x := by
  unfold place at h
  split at h
  next => exact absurd h nofun
  next hpos =>
    split at h
    next hsecond =>
      obtain rfl := Option.some.inj h
      exact ⟨rfl, by rwa [Nat.mod_eq_of_lt hsecond]⟩
    next =>
      split at h
      next =>
        obtain rfl := Option.some.inj h
        exact rfl
      next =>
        split at h
        next =>
          obtain rfl := Option.some.inj h
          exact trivial
        next =>
          split at h
          next => exact absurd h nofun
          next =>
            obtain rfl := Option.some.inj h
            exact trivial

theorem falls_owned {item : WheelItem} {x : Spot} (h : item.falls = some x) : x.item.owned = item.owned := by
  cases item with
  | entry e => exact absurd h nofun
  | callback second e => exact place_owned h

namespace Timers

/-- The entries in the wheels have been named; a timer's entry is where its delay puts it, and has a delay
that keeps it. -/
structure Sound (s : Timers) : Prop where
  held : ∀ x, s.wheel.Has x → x.item.owned < s.next
  named : ∀ e t, s.timers e = some t → e < s.next
  kept : ∀ e t, s.timers e = some t → Kept t.delay.toNat
  fits : ∀ e t x, s.timers e = some t → s.wheel.Has x → x.item.owned = e → t.Fits e x

/-- A callback has one entry at most, with a delay that does not change. -/
structure Single (s : Timers) (id : Nat) (delay : UInt32) : Prop where
  delay : ∀ e t, s.timers e = some t → t.id = id → t.delay = delay
  unique : ∀ e t e' t', s.timers e = some t → s.timers e' = some t' → t.id = id → t'.id = id → e = e'

section Operations
variable {s : Timers} {e id : Nat} {t : Timer} {delay : UInt32}

theorem timers_spend {e' : Nat} : (s.spend e).timers e' = some t ↔ e' ≠ e ∧ s.timers e' = some t := by
  unfold spend
  dsimp only
  by_cases he : e' = e
  · rw [he, Function.update_self]
    exact iff_of_false nofun fun h => h.1 rfl
  · rw [Function.update_of_ne he]
    exact (and_iff_right he).symm

theorem timers_enter {t' : Timer} : (s.enter t).timers e = some t' ↔
    e = s.next ∧ t = t' ∨ e ≠ s.next ∧ s.timers e = some t' := by
  unfold enter
  dsimp only
  by_cases he : e = s.next
  · rw [he, Function.update_self, Option.some.injEq]
    exact ⟨fun h => .inl ⟨rfl, h⟩, fun h => h.elim (·.2) fun h => absurd rfl h.1⟩
  · rw [Function.update_of_ne he]
    exact ⟨fun h => .inr ⟨he, h⟩, fun h => h.elim (fun h => absurd h.1 he) (·.2)⟩

theorem Sound.count (h : s.Sound) (id : Nat) : (s.count id).Sound := ⟨h.held, h.named, h.kept, h.fits⟩

theorem Sound.spend (h : s.Sound) (e : Nat) : (s.spend e).Sound where
  held := h.held
  named e' t he := h.named e' t (timers_spend.mp he).2
  kept e' t he := h.kept e' t (timers_spend.mp he).2
  fits e' t x he := h.fits e' t x (timers_spend.mp he).2

theorem Sound.enter (h : s.Sound) (hkept : Kept t.delay.toNat) : (s.enter t).Sound where
  held x hx := by
    rcases TimingWheel.has_insertEntry.mp hx with hx | hx
    · exact Nat.lt_succ_of_lt (h.held x hx)
    · rw [place_owned hx]
      exact Nat.lt_succ_self _
  named e' t' he := by
    rcases timers_enter.mp he with ⟨rfl, -⟩ | ⟨-, he⟩
    · exact Nat.lt_succ_self _
    · exact Nat.lt_succ_of_lt (h.named e' t' he)
  kept e' t' he := by
    rcases timers_enter.mp he with ⟨-, rfl⟩ | ⟨-, he⟩
    · exact hkept
    · exact h.kept e' t' he
  fits e' t' x he hx howned := by
    rcases timers_enter.mp he with ⟨rfl, rfl⟩ | ⟨hne, he⟩
    · rcases TimingWheel.has_insertEntry.mp hx with hx | hx
      · exact absurd (h.held x hx) (howned ▸ Nat.lt_irrefl _)
      · exact place_fits hx
    · rcases TimingWheel.has_insertEntry.mp hx with hx | hx
      · exact h.fits e' t' x he hx howned
      · exact absurd (howned.symm.trans (place_owned hx)) hne

theorem Sound.destroy (h : s.Sound) {item : WheelItem} (hitem : item.owned < s.next)
    (hfits : ∀ t x, s.timers item.owned = some t → item.falls = some x → t.Fits item.owned x) :
    ({ s with wheel := s.wheel.destroy item } : Timers).Sound where
  held x hx := by
    rcases TimingWheel.has_destroy.mp hx with hx | hx
    · exact h.held x hx
    · rw [falls_owned hx]
      exact hitem
  named := h.named
  kept := h.kept
  fits e t x he hx howned := by
    rcases TimingWheel.has_destroy.mp hx with hx | hx
    · exact h.fits e t x he hx howned
    · obtain rfl := (falls_owned hx).symm.trans howned
      exact hfits t x he hx

theorem Single.spend (h : s.Single id delay) (e : Nat) : (s.spend e).Single id delay where
  delay e' t he := h.delay e' t (timers_spend.mp he).2
  unique e₁ t₁ e₂ t₂ h₁ h₂ := h.unique e₁ t₁ e₂ t₂ (timers_spend.mp h₁).2 (timers_spend.mp h₂).2

theorem Single.enter (h : s.Single id delay)
    (hown : t.id = id → t.delay = delay ∧ ∀ e t', s.timers e = some t' → t'.id ≠ id) :
    (s.enter t).Single id delay where
  delay e' t' he hid := by
    rcases timers_enter.mp he with ⟨-, rfl⟩ | ⟨-, he⟩
    · exact (hown hid).1
    · exact h.delay e' t' he hid
  unique e₁ t₁ e₂ t₂ h₁ h₂ hid₁ hid₂ := by
    rcases timers_enter.mp h₁ with ⟨rfl, rfl⟩ | ⟨-, h₁⟩
    · rcases timers_enter.mp h₂ with ⟨rfl, -⟩ | ⟨-, h₂⟩
      · rfl
      · exact absurd hid₂ ((hown hid₁).2 e₂ t₂ h₂)
    · rcases timers_enter.mp h₂ with ⟨rfl, rfl⟩ | ⟨-, h₂⟩
      · exact absurd hid₁ ((hown hid₂).2 e₁ t₁ h₁)
      · exact h.unique e₁ t₁ e₂ t₂ h₁ h₂ hid₁ hid₂

end Operations

/-! ## Registration -/

section Registration
variable {s s' : Timers} {t : Timer} {fuel : Nat}

theorem owns_enter (h : s.Sound) : (s.enter t).wheel.owns s.next = true ↔ Kept t.delay.toNat := by
  rw [TimingWheel.owns_iff, ← place_isSome_iff _ s.next, Option.isSome_iff_exists]
  constructor
  · rintro ⟨x, hx, howned⟩
    rcases TimingWheel.has_insertEntry.mp hx with hx | hx
    · exact absurd (h.held x hx) (howned ▸ Nat.lt_irrefl _)
    · exact ⟨x, hx⟩
  · rintro ⟨x, hx⟩
    exact ⟨x, TimingWheel.has_insertEntry.mpr (.inr hx), place_owned hx⟩

theorem fire_cases {again : Timers → Timer → Option Timers} (h : fire again s t = some s') :
    s' = s ∨ s' = s.count t.id ∨ again (s.count t.id) { t with alive := t.alive.tail } = some s' := by
  unfold fire at h
  split at h
  · dsimp only at h
    split at h
    · exact .inr (.inr h)
    · exact .inr (.inl (Option.some.inj h).symm)
  · exact .inl (Option.some.inj h).symm

theorem register_kept (h : s.Sound) (hkept : Kept t.delay.toNat) (fuel : Nat) :
    s.register fuel t = some (s.enter t) := by
  cases fuel with
  | zero => exact if_pos ((owns_enter h).mpr hkept)
  | succ fuel => exact if_pos ((owns_enter h).mpr hkept)

/-- An entry that was named and is gone. -/
def skip (s : Timers) : Timers := { s with timers := Function.update s.timers s.next none, next := s.next + 1 }

theorem timers_skip {e : Nat} (he : s.skip.timers e = some t) : s.timers e = some t := by
  unfold skip at he
  dsimp only at he
  by_cases hnext : e = s.next
  · rw [hnext, Function.update_self] at he
    exact absurd he nofun
  · rwa [Function.update_of_ne hnext] at he

theorem Sound.skip (h : s.Sound) : s.skip.Sound where
  held x hx := Nat.lt_succ_of_lt (h.held x hx)
  named e t he := Nat.lt_succ_of_lt (h.named e t (timers_skip he))
  kept e t he := h.kept e t (timers_skip he)
  fits e t x he := h.fits e t x (timers_skip he)

theorem Single.skip {id : Nat} {delay : UInt32} (h : s.Single id delay) : s.skip.Single id delay where
  delay e t he := h.delay e t (timers_skip he)
  unique e₁ t₁ e₂ t₂ h₁ h₂ := h.unique e₁ t₁ e₂ t₂ (timers_skip h₁) (timers_skip h₂)

theorem release_enter (h : s.Sound) (hkept : ¬ Kept t.delay.toNat) (again : Timers → Timer → Option Timers) :
    (s.enter t).release again s.next = fire again s.skip t := by
  have howns : ¬ (s.enter t).wheel.owns s.next = true := fun howns => hkept ((owns_enter h).mp howns)
  have hplace : place t.delay.toNat s.next = none := by
    rw [← place_isSome_iff _ s.next] at hkept
    exact Option.not_isSome_iff_eq_none.mp hkept
  have htimer : (s.enter t).timers s.next = some t := Function.update_self ..
  have hspent : (s.enter t).spend s.next = s.skip := by
    unfold spend enter Timers.skip
    rw [Function.update_idem, TimingWheel.insertEntry_eq, hplace]
    rfl
  rw [release, if_neg howns, htimer]
  dsimp only
  rw [hspent]

theorem register_zero (h : s.Sound) (hkept : ¬ Kept t.delay.toNat) :
    s.register 0 t = fire (fun _ _ => none) s.skip t := release_enter h hkept _

theorem register_succ (h : s.Sound) (hkept : ¬ Kept t.delay.toNat) (fuel : Nat) :
    s.register (fuel + 1) t = fire (register fuel) s.skip t := release_enter h hkept _

/-- A recurring timer whose entry is not kept, and whose condition always holds, is registered again and again. -/
theorem register_never (h : s.Sound) (hkept : ¬ Kept t.delay.toNat) (hrecurring : t.recurring = true)
    (halive : ∀ k, t.alive.get k = true) (fuel : Nat) : s.register fuel t = none := by
  have hhead : t.alive.head = true := halive 0
  induction fuel generalizing s t with
  | zero => rw [register_zero h hkept, fire, if_pos hhead, if_pos hrecurring]
  | succ fuel ih =>
      rw [register_succ h hkept, fire, if_pos hhead, if_pos hrecurring]
      exact ih (h.skip.count t.id) hkept hrecurring (fun k => halive (k + 1)) (halive 1)

theorem register_fails (h : s.Sound) (hkept : ¬ Kept t.delay.toNat) {k : Nat} (hk : t.alive.get k = false) :
    ∃ s', s.register k t = some s' := by
  induction k generalizing s t with
  | zero =>
      rw [register_zero h hkept, fire, if_neg (by rw [show t.alive.head = false from hk]; exact Bool.false_ne_true)]
      exact ⟨_, rfl⟩
  | succ k ih =>
      rw [register_succ h hkept, fire]
      split
      · dsimp only
        split
        · exact ih (h.skip.count t.id) hkept hk
        · exact ⟨_, rfl⟩
      · exact ⟨_, rfl⟩

/-- What a registration that returned leaves behind. -/
structure Registered (s : Timers) (t : Timer) (s' : Timers) : Prop where
  sound : s'.Sound
  single : ∀ id delay, s.Single id delay →
    (t.id = id → t.delay = delay ∧ ∀ e t', s.timers e = some t' → t'.id ≠ id) → s'.Single id delay

theorem Sound.registered_skip (h : s.Sound) (t : Timer) : Registered s t s.skip :=
  ⟨h.skip, fun _ _ hid _ => hid.skip⟩

theorem Sound.registered_count (h : s.Sound) (t : Timer) : Registered s t (s.skip.count t.id) :=
  ⟨h.skip.count t.id, fun _ _ hid _ => ⟨hid.skip.delay, hid.skip.unique⟩⟩

theorem register_sound (h : s.Sound) (hr : s.register fuel t = some s') : Registered s t s' := by
  by_cases hkept : Kept t.delay.toNat
  · rw [register_kept h hkept] at hr
    obtain rfl := Option.some.inj hr
    exact ⟨h.enter hkept, fun id delay hid hown => hid.enter hown⟩
  induction fuel generalizing s t with
  | zero =>
      rw [register_zero h hkept] at hr
      rcases fire_cases hr with rfl | rfl | hagain
      · exact h.registered_skip t
      · exact h.registered_count t
      · exact absurd hagain nofun
  | succ fuel ih =>
      rw [register_succ h hkept] at hr
      rcases fire_cases hr with rfl | rfl | hagain
      · exact h.registered_skip t
      · exact h.registered_count t
      · have hcount := h.registered_count t
        have hrest := ih hcount.sound hagain hkept
        refine ⟨hrest.sound, fun id delay hid hown => ?_⟩
        refine hrest.single id delay (hcount.single id delay hid hown) fun ht => ?_
        obtain ⟨hdelay, hfresh⟩ := hown ht
        exact ⟨hdelay, fun e t' he => hfresh e t' (timers_skip he)⟩

end Registration

end Timers
end TmmsServer
