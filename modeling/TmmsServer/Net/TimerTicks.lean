import Mathlib.Logic.Relation
import TmmsServer.Net.RecurringTimer

/-!
# Timers over the ticks

What a slot that is emptied does to the timers in it, what a call of `OnTimer` does, and
every run of insertions and calls.
-/
namespace TmmsServer
open Lib

namespace Timers

/-! ## Slots -/

section Slots
variable {s s' : Timers} {e : Nat} {t : Timer} {fuel : Nat}

/-- What the end of a reference leaves behind: a callback runs once at most, and where it has run there is no
old entry of it any more. -/
structure Released (s : Timers) (e : Nat) (s' : Timers) : Prop where
  sound : s'.Sound
  next : s.next ≤ s'.next
  old : ∀ e' t, e' < s.next → s'.timers e' = some t → s.timers e' = some t
  single : ∀ id delay, s.Single id delay → s'.Single id delay
  ran : ∀ id delay, s.Single id delay → s'.ran id = s.ran id ∨
    s'.ran id = s.ran id + 1 ∧ s.wheel.owns e = false ∧ (∃ t, s.timers e = some t ∧ t.id = id) ∧
      ∀ e' t, e' < s.next → s'.timers e' = some t → t.id ≠ id

theorem Sound.released_refl (h : s.Sound) : Released s e s where
  sound := h
  next := Nat.le_refl _
  old _ _ _ he := he
  single _ _ hid := hid
  ran _ _ _ := .inl rfl

theorem Sound.released_spend (h : s.Sound) : Released s e (s.spend e) where
  sound := h.spend e
  next := Nat.le_refl _
  old _ _ _ he := (timers_spend.mp he).2
  single _ _ hid := hid.spend e
  ran _ _ _ := .inl rfl

theorem Single.spent {id : Nat} {delay : UInt32} (hid : s.Single id delay) (he : s.timers e = some t)
    (ht : t.id = id) {e' : Nat} {t' : Timer} (he' : (s.spend e).timers e' = some t') : t'.id ≠ id := by
  obtain ⟨hne, he'⟩ := timers_spend.mp he'
  exact fun ht' => hne (hid.unique e' t' e t he' he ht' ht)

section Fired
variable (h : s.Sound) (he : s.timers e = some t) (howns : s.wheel.owns e = false)
include he howns

theorem count_ran {id : Nat} {delay : UInt32} (hid : s.Single id delay) (s₁ : Timers)
    (hran : s₁.ran = ((s.spend e).count t.id).ran)
    (hold : ∀ e' t', e' < s.next → s₁.timers e' = some t' → (s.spend e).timers e' = some t') :
    s₁.ran id = s.ran id ∨ s₁.ran id = s.ran id + 1 ∧ s.wheel.owns e = false ∧
      (∃ t, s.timers e = some t ∧ t.id = id) ∧ ∀ e' t, e' < s.next → s₁.timers e' = some t → t.id ≠ id := by
  rw [hran]
  unfold count
  dsimp only
  by_cases ht : t.id = id
  · subst ht
    rw [Function.update_self]
    exact .inr ⟨rfl, howns, ⟨t, he, rfl⟩, fun e' t' hlt he' => hid.spent he rfl (hold e' t' hlt he')⟩
  · rw [Function.update_of_ne fun hsame => ht hsame.symm]
    exact .inl rfl

include h

theorem Sound.released_count : Released s e ((s.spend e).count t.id) where
  sound := (h.spend e).count t.id
  next := Nat.le_refl _
  old _ _ _ he' := (timers_spend.mp he').2
  single _ _ hid := ⟨(hid.spend e).delay, (hid.spend e).unique⟩
  ran _ _ hid := count_ran he howns hid _ rfl fun _ _ _ he' => he'

theorem Sound.released_enter :
    Released s e (((s.spend e).count t.id).enter { t with alive := t.alive.tail }) := by
  have hold : ∀ e' t', e' < s.next →
      (((s.spend e).count t.id).enter { t with alive := t.alive.tail }).timers e' = some t' →
        (s.spend e).timers e' = some t' := by
    intro e' t' hlt he'
    rcases timers_enter.mp he' with ⟨rfl, -⟩ | ⟨-, he'⟩
    · exact absurd hlt (Nat.lt_irrefl _)
    · exact he'
  refine ⟨((h.spend e).count t.id).enter (h.kept e t he), Nat.le_succ _, fun e' t' hlt he' => ?_,
    fun id delay hid => ?_, fun id delay hid => count_ran he howns hid _ rfl hold⟩
  · exact (timers_spend.mp (hold e' t' hlt he')).2
  · refine Single.enter ⟨(hid.spend e).delay, (hid.spend e).unique⟩ fun ht => ?_
    exact ⟨hid.delay e t he ht, fun e' t' he' => hid.spent he ht he'⟩

end Fired

theorem release_released (h : s.Sound) (e fuel : Nat) :
    ∃ s', s.release (register fuel) e = some s' ∧ Released s e s' := by
  unfold release
  split
  · exact ⟨s, rfl, h.released_refl⟩
  next howns =>
    have howns := Bool.eq_false_iff.mpr howns
    cases he : s.timers e with
    | none => exact ⟨s, rfl, h.released_refl⟩
    | some t =>
        dsimp only
        unfold fire
        split
        · dsimp only
          split
          · have hagain : (((s.spend e).count t.id).register fuel { t with alive := t.alive.tail }) =
                some (((s.spend e).count t.id).enter { t with alive := t.alive.tail }) :=
              register_kept (t := { t with alive := t.alive.tail }) ((h.spend e).count t.id) (h.kept e t he) fuel
            exact ⟨_, hagain, h.released_enter he howns⟩
          · exact ⟨_, rfl, h.released_count he howns⟩
        · exact ⟨_, rfl, h.released_spend⟩

/-- The items of a slot have named entries, and fall to places that suit their timers. -/
def Falling (s : Timers) (items : List WheelItem) : Prop :=
  ∀ item ∈ items, item.owned < s.next ∧
    ∀ t x, s.timers item.owned = some t → item.falls = some x → t.Fits item.owned x

/-- None of the items lets go of an entry of the callback. -/
def Spares (s : Timers) (id : Nat) (items : List WheelItem) : Prop :=
  ∀ item ∈ items, ∀ t, s.timers item.owned = some t → t.id = id → item.falls ≠ none

/-- What destroying the items of a slot leaves behind. -/
structure Popped (s : Timers) (items : List WheelItem) (s' : Timers) : Prop where
  sound : s'.Sound
  single : ∀ id delay, s.Single id delay → s'.Single id delay
  once : ∀ id delay, s.Single id delay → s'.ran id ≤ s.ran id + 1
  spared : ∀ id delay, s.Single id delay → s.Spares id items → s'.ran id = s.ran id

theorem Sound.popped_nil (h : s.Sound) : Popped s [] s :=
  ⟨h, fun _ _ hid => hid, fun _ _ _ => Nat.le_succ _, fun _ _ _ _ => rfl⟩

theorem owns_destroy {item : WheelItem} (h : (s.wheel.destroy item).owns item.owned = false) :
    item.falls = none := by
  cases hfalls : item.falls with
  | none => rfl
  | some x =>
      have howns : (s.wheel.destroy item).owns item.owned = true :=
        TimingWheel.owns_iff.mpr ⟨x, TimingWheel.has_destroy.mpr (.inr hfalls), falls_owned hfalls⟩
      exact absurd (howns.symm.trans h) nofun

/-- The items of a slot, one after the other, by induction on them. -/
theorem foldlM_destroy (fuel : Nat) {items : List WheelItem} (h : s.Sound) (hitems : s.Falling items) :
    ∃ s', items.foldlM (destroy fuel) s = some s' ∧ Popped s items s' := by
  induction items generalizing s with
  | nil => exact ⟨s, rfl, h.popped_nil⟩
  | cons item items ih =>
      obtain ⟨hnamed, hfits⟩ := hitems item List.mem_cons_self
      obtain ⟨s₁, hs₁, hreleased⟩ := release_released (h.destroy hnamed hfits) item.owned fuel
      have hrest : s₁.Falling items := by
        intro item' hitem'
        obtain ⟨hlt, hfits'⟩ := hitems item' (List.mem_cons_of_mem _ hitem')
        exact ⟨Nat.lt_of_lt_of_le hlt hreleased.next, fun t x ht => hfits' t x (hreleased.old _ _ hlt ht)⟩
      obtain ⟨s', hs', hpopped⟩ := ih hreleased.sound hrest
      refine ⟨s', ?_, hpopped.sound, fun id delay hid => ?_, fun id delay hid => ?_, fun id delay hid hspares => ?_⟩
      · rw [List.foldlM_cons]
        change (Timers.release _ _ _).bind _ = _
        rw [hs₁]
        exact hs'
      · exact hpopped.single id delay (hreleased.single id delay ⟨hid.delay, hid.unique⟩)
      · have hid₁ := hreleased.single id delay ⟨hid.delay, hid.unique⟩
        rcases hreleased.ran id delay ⟨hid.delay, hid.unique⟩ with hsame | ⟨hran, -, -, hnone⟩
        · rw [← show s₁.ran id = s.ran id from hsame]
          exact hpopped.once id delay hid₁
        · -- it has run; its new entry is none of those in the slot
          have hspared := hpopped.spared id delay hid₁ fun item' hitem' t ht hid' =>
            absurd hid' (hnone _ t (hitems item' (List.mem_cons_of_mem _ hitem')).1 ht)
          rw [hspared]
          exact Nat.le_of_eq hran
      · have hid₁ := hreleased.single id delay ⟨hid.delay, hid.unique⟩
        have hspared := hpopped.spared id delay hid₁ fun item' hitem' t ht =>
          hspares item' (List.mem_cons_of_mem _ hitem') t
            (hreleased.old _ _ (hitems item' (List.mem_cons_of_mem _ hitem')).1 ht)
        rcases hreleased.ran id delay ⟨hid.delay, hid.unique⟩ with hsame | ⟨-, howns, ⟨t, ht, hid'⟩, -⟩
        · rw [hspared]
          exact hsame
        · exact absurd (owns_destroy howns) (hspares item List.mem_cons_self t ht hid')

theorem fits_slot {x : Spot} (i : Nat) : t.Fits e { x with slot := i } ↔ t.Fits e x := Iff.rfl

theorem has_turn {k : TimingType} {y : Spot} (hy : (s.turn k).wheel.Has y) :
    ∃ i, s.wheel.Has { y with slot := i } := by
  have hbefore := TimingWheel.has_turn.mp hy
  split at hbefore
  · exact ⟨_, hbefore⟩
  · exact ⟨y.slot, hbefore⟩

theorem Sound.turn (h : s.Sound) (k : TimingType) : (s.turn k).Sound where
  held x hx := by
    obtain ⟨i, hbefore⟩ := has_turn hx
    exact h.held { x with slot := i } hbefore
  named := h.named
  kept := h.kept
  fits e t x he hx howned := by
    obtain ⟨i, hbefore⟩ := has_turn hx
    exact (fits_slot i).mp (h.fits e t _ he hbefore howned)

theorem front_second (h : s.Sound) {item : WheelItem} (hitem : item ∈ (s.wheel.wheels .second).front)
    (ht : s.timers item.owned = some t) : item.falls = none ∧ t.delay.toNat % kTimingMinute ≠ 0 := by
  obtain ⟨hentry, hseconds⟩ := h.fits _ t ⟨.second, 0, item⟩ ht (Wheel.mem_front.mp hitem) rfl
  dsimp only at hentry
  rw [hentry]
  exact ⟨rfl, hseconds⟩

theorem front_minute (h : s.Sound) {item : WheelItem} (hitem : item ∈ (s.wheel.wheels .minute).front)
    (ht : s.timers item.owned = some t) : item.falls = place (t.delay.toNat % kTimingMinute) item.owned := by
  have hentry := h.fits _ t ⟨.minute, 0, item⟩ ht (Wheel.mem_front.mp hitem) rfl
  change item = _ at hentry
  conv_lhs => rw [hentry]
  rfl

theorem popUp_popped (h : s.Sound) {k : TimingType} (hfalling : (s.turn k).Falling (s.wheel.wheels k).front)
    (fuel : Nat) :
    ∃ s', s.popUp fuel k = some s' ∧ s'.Sound ∧ ∀ id delay, s.Single id delay →
      s'.Single id delay ∧ s'.ran id ≤ s.ran id + 1 ∧
        ((s.turn k).Spares id (s.wheel.wheels k).front → s'.ran id = s.ran id) := by
  obtain ⟨s', hs', hpopped⟩ := foldlM_destroy fuel (h.turn k) hfalling
  refine ⟨s', hs', hpopped.sound, fun id delay hid => ?_⟩
  have hid' : (s.turn k).Single id delay := ⟨hid.delay, hid.unique⟩
  exact ⟨hpopped.single id delay hid', hpopped.once id delay hid', hpopped.spared id delay hid'⟩

theorem popUp_second (h : s.Sound) (fuel : Nat) : ∃ s', s.popUp fuel .second = some s' ∧ s'.Sound ∧
    ∀ id delay, s.Single id delay → s'.Single id delay ∧ s'.ran id ≤ s.ran id + 1 ∧
      (delay.toNat % kTimingMinute = 0 → s'.ran id = s.ran id) := by
  have hfalling : (s.turn .second).Falling (s.wheel.wheels .second).front := fun item hitem =>
    ⟨h.held ⟨.second, 0, item⟩ (Wheel.mem_front.mp hitem), fun t x ht hfalls =>
      absurd (hfalls.symm.trans (front_second h hitem ht).1) nofun⟩
  obtain ⟨s', hs', hsound, hsingle⟩ := popUp_popped h hfalling fuel
  refine ⟨s', hs', hsound, fun id delay hid => ?_⟩
  obtain ⟨hid', honce, hspared⟩ := hsingle id delay hid
  refine ⟨hid', honce, fun hwhole => hspared fun item hitem t ht htid => ?_⟩
  rw [← hid.delay _ t ht htid] at hwhole
  exact absurd hwhole (front_second h hitem ht).2

theorem popUp_minute (h : s.Sound) (fuel : Nat) : ∃ s', s.popUp fuel .minute = some s' ∧ s'.Sound ∧
    ∀ id delay, s.Single id delay → s'.Single id delay ∧ s'.ran id ≤ s.ran id + 1 ∧
      (delay.toNat % kTimingMinute ≠ 0 → s'.ran id = s.ran id) := by
  have hsmall : ∀ t : Timer, t.delay.toNat % kTimingMinute < kTimingMinute := fun t => Nat.mod_lt _ (by decide)
  have hfalling : (s.turn .minute).Falling (s.wheel.wheels .minute).front := by
    refine fun item hitem => ⟨h.held ⟨.minute, 0, item⟩ (Wheel.mem_front.mp hitem), fun t x ht hfalls => ?_⟩
    rw [front_minute h hitem ht, place] at hfalls
    split at hfalls
    next => exact absurd hfalls.symm (Option.some_ne_none x)
    next hseconds =>
      rw [if_pos (hsmall t)] at hfalls
      obtain rfl := Option.some.inj hfalls
      exact ⟨rfl, hseconds⟩
  obtain ⟨s', hs', hsound, hsingle⟩ := popUp_popped h hfalling fuel
  refine ⟨s', hs', hsound, fun id delay hid => ?_⟩
  obtain ⟨hid', honce, hspared⟩ := hsingle id delay hid
  refine ⟨hid', honce, fun hseconds => hspared fun item hitem t ht htid => ?_⟩
  rw [← hid.delay _ t ht htid] at hseconds
  rw [front_minute h hitem ht, place, if_neg hseconds, if_pos (hsmall t)]
  exact Option.some_ne_none _

end Slots

/-! ## Calls of `OnTimer` -/

/-- `last_ts_` is set. -/
def stamp (s : Timers) (now : Int) : Timers := { s with wheel := { s.wheel with lastTs := now } }

/-- A tick begins. -/
def beginTick (s : Timers) (now : Int) : Timers :=
  { s with wheel := { s.wheel with lastTs := now, tick := s.wheel.tick + 1 } }

section Ticks
variable {s s' : Timers}

/-- The first call sets the time, a call within the second does nothing, and any other is a tick. The wheels of
hours and days never turn. -/
theorem onTimer_eq (s : Timers) (fuel : Nat) (now : Int) : s.onTimer fuel now =
    if s.wheel.lastTs = 0 then some (s.stamp now)
    else if now - s.wheel.lastTs < 1000 then some s
    else ((s.beginTick now).popUp fuel .second).bind fun s =>
      if s.wheel.tick % kTimingMinute = 0 then s.popUp fuel .minute else some s := by
  unfold onTimer
  dsimp only
  by_cases hfirst : s.wheel.lastTs = 0
  · rw [if_pos hfirst, if_pos hfirst]
    dsimp only
    rw [if_pos (by omega)]
    rfl
  rw [if_neg hfirst, if_neg hfirst]
  split
  · rfl
  · refine congrArg (Option.bind _) (funext fun s₁ => ?_)
    by_cases hminute : s₁.wheel.tick % kTimingMinute = 0
    · rw [if_pos hminute, if_pos hminute]
    · have hhour := mt minute_of_hour hminute
      have hday := mt minute_of_day hminute
      rw [if_neg hminute, if_neg hminute, if_neg hhour, if_neg hday]

/-- No callback runs twice in a tick: the wheel of seconds lets go of the timers whose delay has odd seconds, the
wheel of minutes of the others. -/
theorem tick_once (h : s.Sound) (fuel : Nat) :
    ∃ s', ((s.popUp fuel .second).bind fun s =>
        if s.wheel.tick % kTimingMinute = 0 then s.popUp fuel .minute else some s) = some s' ∧ s'.Sound ∧
      ∀ id delay, s.Single id delay → s'.Single id delay ∧ s'.ran id ≤ s.ran id + 1 := by
  obtain ⟨s₁, hs₁, hsound₁, hsingle₁⟩ := popUp_second h fuel
  rw [hs₁, Option.bind_some]
  split
  · obtain ⟨s₂, hs₂, hsound₂, hsingle₂⟩ := popUp_minute hsound₁ fuel
    refine ⟨s₂, hs₂, hsound₂, fun id delay hid => ?_⟩
    obtain ⟨hid₁, honce₁, hspared₁⟩ := hsingle₁ id delay hid
    obtain ⟨hid₂, honce₂, hspared₂⟩ := hsingle₂ id delay hid₁
    refine ⟨hid₂, ?_⟩
    by_cases hwhole : delay.toNat % kTimingMinute = 0
    · rw [← hspared₁ hwhole]
      exact honce₂
    · rw [hspared₂ hwhole]
      exact honce₁
  · refine ⟨s₁, rfl, hsound₁, fun id delay hid => ?_⟩
    obtain ⟨hid₁, honce₁, -⟩ := hsingle₁ id delay hid
    exact ⟨hid₁, honce₁⟩

theorem onTimer_once (h : s.Sound) (fuel : Nat) (now : Int) : ∃ s', s.onTimer fuel now = some s' ∧ s'.Sound ∧
    ∀ id delay, s.Single id delay → s'.Single id delay ∧ s'.ran id ≤ s.ran id + 1 := by
  rw [onTimer_eq]
  split
  · exact ⟨s.stamp now, rfl, ⟨h.held, h.named, h.kept, h.fits⟩, fun id delay hid =>
      ⟨⟨hid.delay, hid.unique⟩, Nat.le_succ _⟩⟩
  split
  · exact ⟨s, rfl, h, fun id delay hid => ⟨hid, Nat.le_succ _⟩⟩
  · have hbegun : (s.beginTick now).Sound := ⟨h.held, h.named, h.kept, h.fits⟩
    obtain ⟨s', hs', hsound, hsingle⟩ := tick_once hbegun fuel
    exact ⟨s', hs', hsound, fun id delay hid => hsingle id delay ⟨hid.delay, hid.unique⟩⟩

end Ticks

/-! ## Runs -/

/-- An entry without a timer is inserted, or an allowed timer is registered. -/
inductive Insertion (allowed : Nat → Prop) : Timers → Timers → Prop
  | entry {s : Timers} (delay e : Nat) : s.timers e = none →
      Insertion allowed s { s with wheel := s.wheel.insertEntry delay e, next := max s.next (e + 1) }
  | timer {s s' : Timers} (t : Timer) (fuel : Nat) : allowed t.id → s.register fuel t = some s' →
      Insertion allowed s s'

/-- What happens to the wheels: an insertion, or the loop calls `OnTimer`. -/
inductive Move (allowed : Nat → Prop) : Timers → Timers → Prop
  | insertion {s s' : Timers} : Insertion allowed s s' → Move allowed s s'
  | tick {s s' : Timers} (fuel : Nat) (now : Int) : s.onTimer fuel now = some s' → Move allowed s s'

/-- The states of every run from the empty wheels. -/
def Reached (s : Timers) : Prop := Relation.ReflTransGen (Move fun _ => True) {} s

/-- The registration returns, and whatever happens afterwards but another registration of the callback, each call of
`OnTimer` returns and runs it once at most. -/
def Serves (id : Nat) (register : Nat → Option Timers) : Prop :=
  (∃ fuel s, register fuel = some s) ∧
    ∀ fuel s s', register fuel = some s → Relation.ReflTransGen (Move (· ≠ id)) s s' → ∀ fuel now,
      ∃ s₁, s'.onTimer fuel now = some s₁ ∧ s₁.ran id ≤ s'.ran id + 1

section Runs
variable {allowed : Nat → Prop} {s s' : Timers} {id : Nat} {delay : UInt32}

theorem sound_empty : ({} : Timers).Sound where
  held x hx := by
    obtain ⟨slot, hslot, hitem⟩ := hx
    rw [List.eq_of_mem_replicate (List.mem_of_getElem? hslot)] at hitem
    exact absurd hitem List.not_mem_nil
  named _ _ he := absurd he nofun
  kept _ _ he := absurd he nofun
  fits _ _ _ he := absurd he nofun

theorem Sound.entry (h : s.Sound) (delay : Nat) {e : Nat} (he : s.timers e = none) :
    ({ s with wheel := s.wheel.insertEntry delay e, next := max s.next (e + 1) } : Timers).Sound where
  held x hx := by
    rcases TimingWheel.has_insertEntry.mp hx with hx | hx
    · exact Nat.lt_of_lt_of_le (h.held x hx) (Nat.le_max_left ..)
    · rw [place_owned hx]
      exact Nat.le_max_right ..
  named e' t ht := Nat.lt_of_lt_of_le (h.named e' t ht) (Nat.le_max_left ..)
  kept := h.kept
  fits e' t x ht hx howned := by
    rcases TimingWheel.has_insertEntry.mp hx with hx | hx
    · exact h.fits e' t x ht hx howned
    · obtain rfl := (place_owned hx).symm.trans howned
      exact absurd (he.symm.trans ht) nofun

theorem Sound.insertion (h : s.Sound) (hinsertion : Insertion allowed s s') : s'.Sound := by
  cases hinsertion with
  | entry delay e he => exact h.entry delay he
  | timer t fuel _ hr => exact (register_sound h hr).sound

theorem Sound.move (h : s.Sound) (hmove : Move allowed s s') : s'.Sound := by
  cases hmove with
  | insertion hinsertion => exact h.insertion hinsertion
  | tick fuel now ht =>
      obtain ⟨s₁, hs₁, hsound, -⟩ := onTimer_once h fuel now
      obtain rfl := Option.some.inj (hs₁.symm.trans ht)
      exact hsound

theorem Single.move (hid : s.Single id delay) (h : s.Sound) (hmove : Move (· ≠ id) s s') : s'.Single id delay := by
  cases hmove with
  | insertion hinsertion =>
      cases hinsertion with
      | entry delay e he => exact ⟨hid.delay, hid.unique⟩
      | timer t fuel hother hr => exact (register_sound h hr).single id delay hid fun ht => absurd ht hother
  | tick fuel now ht =>
      obtain ⟨s₁, hs₁, -, honce⟩ := onTimer_once h fuel now
      obtain rfl := Option.some.inj (hs₁.symm.trans ht)
      exact (honce id delay hid).1

theorem Sound.moves (h : s.Sound) (hmoves : Relation.ReflTransGen (Move allowed) s s') : s'.Sound := by
  induction hmoves with
  | refl => exact h
  | tail _ hmove ih => exact ih.move hmove

theorem Single.moves (hid : s.Single id delay) (h : s.Sound) (hmoves : Relation.ReflTransGen (Move (· ≠ id)) s s') :
    s'.Single id delay := by
  induction hmoves with
  | refl => exact hid
  | tail hmoves hmove ih => exact ih.move (h.moves hmoves) hmove

theorem serves_of_returns (h : s.Sound) {t : Timer} (hnew : ∀ e t', s.timers e = some t' → t'.id ≠ t.id)
    (hreturns : ∃ fuel s', s.register fuel t = some s') : Serves t.id fun fuel => s.register fuel t := by
  refine ⟨hreturns, fun fuel s₁ s₂ hr hmoves fuel' now => ?_⟩
  have hfresh : s.Single t.id t.delay :=
    ⟨fun e t' he ht => absurd ht (hnew e t' he), fun e₁ t₁ _ _ h₁ _ ht₁ => absurd ht₁ (hnew e₁ t₁ h₁)⟩
  have hregistered := register_sound h hr
  have hid := hregistered.single t.id t.delay hfresh fun _ => ⟨rfl, hnew⟩
  obtain ⟨s₃, hs₃, -, honce⟩ := onTimer_once (hregistered.sound.moves hmoves) fuel' now
  exact ⟨s₃, hs₃, (honce t.id t.delay (hid.moves hregistered.sound hmoves)).2⟩

/-- A recurring timer is served where its entry is kept, or its condition fails at last. -/
theorem serves_iff (h : s.Sound) {t : Timer} (hnew : ∀ e t', s.timers e = some t' → t'.id ≠ t.id)
    (hrecurring : t.recurring = true) :
    Serves t.id (fun fuel => s.register fuel t) ↔ Kept t.delay.toNat ∨ ∃ k, t.alive.get k = false := by
  constructor
  · rintro ⟨⟨fuel, s', hr⟩, -⟩
    by_contra hnever
    obtain ⟨hkept, halive⟩ := not_or.mp hnever
    have halive' : ∀ k, t.alive.get k = true := fun k => Bool.eq_true_of_not_eq_false fun hk => halive ⟨k, hk⟩
    exact absurd (hr.symm.trans (register_never h hkept hrecurring halive' fuel)) nofun
  · intro hreturns
    refine serves_of_returns h hnew ?_
    by_cases hkept : Kept t.delay.toNat
    · exact ⟨0, _, register_kept h hkept 0⟩
    · obtain ⟨k, hk⟩ := hreturns.resolve_left hkept
      exact ⟨k, register_fails h hkept hk⟩

/-- Recurring timers are served for the delays from one second up to thirty-one days, or when their condition
fails. -/
theorem recurring_serves_iff (h : s.Reached) (hnew : ∀ e t, s.timers e = some t → t.id ≠ id) {interval : UInt64}
    (hdelay : seconds interval = some delay) (alive : Stream' Bool) :
    (Serves id (fun fuel => s.addTimer fuel interval id true) ↔ 1 ≤ delay.toNat ∧ delay.toNat < 31 * 86400) ∧
      (Serves id (fun fuel => s.addConditionTimer fuel interval id alive true) ↔
        1 ≤ delay.toNat ∧ delay.toNat < 31 * 86400 ∨ ∃ k, alive.get k = false) := by
  have hsound := sound_empty.moves h
  have hadd : ∀ fuel, s.addTimer fuel interval id true = s.register fuel ⟨id, delay, true, Stream'.const true⟩ :=
    fun fuel => by rw [addTimer, hdelay, Option.bind_some]
  have hcondition : ∀ fuel,
      s.addConditionTimer fuel interval id alive true = s.register fuel ⟨id, delay, true, alive⟩ :=
    fun fuel => by rw [addConditionTimer, hdelay, Option.bind_some]
  simp only [hadd, hcondition]
  refine ⟨?_, serves_iff (t := ⟨id, delay, true, alive⟩) hsound hnew rfl⟩
  rw [serves_iff (t := ⟨id, delay, true, Stream'.const true⟩) hsound hnew rfl]
  exact or_iff_left fun ⟨_, hk⟩ => absurd hk nofun

theorem recurring_serves_iff_minute :
    Serves 0 (fun fuel => ({} : Timers).addTimer fuel 0x404E000000000000 0 true) ∧
      Serves 0 (fun fuel =>
        ({} : Timers).addConditionTimer fuel 0x404E000000000000 0 (Stream'.const false) true) := by
  have hminute : seconds 0x404E000000000000 = some 60 := by decide +kernel
  have hnew : ∀ e t, ({} : Timers).timers e = some t → t.id ≠ 0 := fun _ _ he => absurd he nofun
  have hserves := recurring_serves_iff .refl hnew hminute (Stream'.const false)
  exact ⟨hserves.1.mpr (by decide), hserves.2.mpr (.inr ⟨0, rfl⟩)⟩

/-- Half a second is cut off to none; the registration has no end. -/
theorem halfSecond_never : ¬ ∀ interval delay, seconds interval = some delay → ∀ alive : Stream' Bool,
    Serves 0 (fun fuel => ({} : Timers).addTimer fuel interval 0 true) ∧
      Serves 0 (fun fuel => ({} : Timers).addConditionTimer fuel interval 0 alive true) := by
  intro hserves
  have hnone : seconds 0x3FE0000000000000 = some 0 := by decide +kernel
  obtain ⟨⟨fuel, s', hr⟩, -⟩ := (hserves 0x3FE0000000000000 0 hnone (Stream'.const true)).1
  dsimp only at hr
  rw [addTimer, hnone, Option.bind_some] at hr
  have hkept : ¬ Kept (0 : UInt32).toNat := by
    unfold Kept
    decide
  have hnever := register_never (t := ⟨0, 0, true, Stream'.const true⟩) sound_empty hkept rfl (fun _ => rfl) fuel
  exact absurd (hr.symm.trans hnever) nofun

end Runs

end Timers
end TmmsServer
