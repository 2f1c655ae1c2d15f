import TmmsServer.Net.TimingWheel

/-!
# How accurate the timing wheel is

An entry is followed from its insertion to its release, over every run of timer
calls and other insertions.
-/
namespace TmmsServer
open Lib

/-- What becomes of a spot when `tick_` reaches `k`. The wheels of hours and days never turn: a
multiple of an hour is a multiple of a minute. -/
def Spot.turn (k : Nat) (x : Spot) : Option Spot :=
  (x.pop .second).bind fun x => if k % kTimingMinute = 0 then x.pop .minute else some x

/-- The number of ticks a spot has left at `tick`, unless it stays for ever. -/
def Spot.life (tick : Nat) : Spot → Option Nat
  | ⟨.second, i, .entry _⟩ => some (i + 1)
  | ⟨.minute, i, .callback second _⟩ => some (kTimingMinute - tick % kTimingMinute + (kTimingMinute * i + second))
  | _ => none

/-- The spots `InsertEntry` chooses, and those that they turn to. -/
def Spot.Placed : Spot → Prop
  | ⟨.second, _, .entry _⟩ => True
  | ⟨.minute, _, .callback second _⟩ => second < kTimingMinute
  | ⟨.hour, _, _⟩ | ⟨.day, _, _⟩ => True
  | _ => False

namespace TimingWheel

/-- The items in the wheels. -/
def items (w : TimingWheel) : List WheelItem :=
  [TimingType.second, .minute, .hour, .day].flatMap fun t => (w.wheels t).slots.flatten

/-- The wheels hold a reference to the entry. -/
def owns (w : TimingWheel) (e : Nat) : Bool := w.items.any fun item => item.owned = e

theorem owns_iff {w : TimingWheel} {e : Nat} :
    w.owns e = true ↔ ∃ x, w.Has x ∧ x.item.owned = e := by
  have hall : ∀ t, t ∈ [TimingType.second, .minute, .hour, .day] := fun t => by cases t <;> decide
  unfold owns items
  simp only [List.any_eq_true, List.mem_flatMap, List.mem_flatten, decide_eq_true_eq]
  constructor
  · rintro ⟨item, ⟨t, -, slot, hslot, hitem⟩, he⟩
    obtain ⟨i, hi⟩ := List.mem_iff_getElem?.mp hslot
    exact ⟨⟨t, i, item⟩, ⟨slot, hi, hitem⟩, he⟩
  · rintro ⟨⟨t, i, item⟩, ⟨slot, hslot, hitem⟩, he⟩
    exact ⟨item, ⟨t, hall t, slot, List.mem_of_getElem? hslot, hitem⟩, he⟩

end TimingWheel

inductive WheelOp where
  | insert (delay e : Nat)
  | timer (now : Int)

namespace TimingWheel

def step (w : TimingWheel) : WheelOp → TimingWheel
  | .insert delay e => w.insertEntry delay e
  | .timer now => w.onTimer now

def run (w : TimingWheel) (ops : List WheelOp) : TimingWheel := ops.foldl step w

/-- The ticks at which the last reference to the entry went, once for each time that happened. -/
def releases (e : Nat) : TimingWheel → List WheelOp → List Nat
  | _, [] => []
  | w, op :: ops =>
      (if w.owns e && !(w.step op).owns e then [(w.step op).tick] else []) ++ releases e (w.step op) ops

@[simp] theorem insertEntry_tick (w : TimingWheel) (delay e : Nat) : (w.insertEntry delay e).tick = w.tick := by
  rw [insertEntry_eq]
  cases place delay e <;> rfl

theorem foldl_destroy_tick (w : TimingWheel) (items : List WheelItem) :
    (items.foldl destroy w).tick = w.tick := by
  induction items generalizing w with
  | nil => rfl
  | cons item items ih =>
      rw [List.foldl_cons, ih]
      cases item with
      | entry e => rfl
      | callback second e => exact insertEntry_tick w second e

theorem popUp_tick (w : TimingWheel) (t : TimingType) : (w.popUp t).tick = w.tick :=
  foldl_destroy_tick _ _

/-- A call of `OnTimer` only sets the time, or it is a tick, and every spot turns. -/
theorem onTimer_cases (w : TimingWheel) (now : Int) :
    (∃ ts, w.onTimer now = { w with lastTs := ts }) ∨
      (w.onTimer now).tick = w.tick + 1 ∧
        ∀ y, (w.onTimer now).Has y ↔ ∃ x, w.Has x ∧ x.turn (w.tick + 1) = some y := by
  have hbase : ∃ ts, (if w.lastTs = 0 then { w with lastTs := now } else w) =
      { w with lastTs := ts } := by
    split
    · exact ⟨now, rfl⟩
    · exact ⟨w.lastTs, rfl⟩
  obtain ⟨ts, hts⟩ := hbase
  unfold onTimer
  dsimp only
  rw [hts]
  split
  next => exact .inl ⟨ts, rfl⟩
  next =>
    right
    have htick : (({ w with lastTs := now, tick := w.tick + 1 } : TimingWheel).popUp .second).tick = w.tick + 1 :=
      popUp_tick _ _
    have hsecond : ∀ y, (({ w with lastTs := now, tick := w.tick + 1 } : TimingWheel).popUp .second).Has y ↔
        ∃ x, w.Has x ∧ x.pop .second = some y := fun y => has_popUp
    dsimp only
    generalize ({ w with lastTs := now, tick := w.tick + 1 } : TimingWheel).popUp .second = v at *
    rw [htick]
    unfold Spot.turn
    by_cases hm : (w.tick + 1) % kTimingMinute = 0
    · rw [if_pos hm]
      refine ⟨(popUp_tick _ _).trans htick, fun y => ?_⟩
      rw [has_popUp]
      simp only [if_pos hm, Option.bind_eq_some_iff]
      constructor
      · rintro ⟨x, hx, hxy⟩
        obtain ⟨z, hz, hzx⟩ := (hsecond x).mp hx
        exact ⟨z, hz, x, hzx, hxy⟩
      · rintro ⟨z, hz, x, hzx, hxy⟩
        exact ⟨x, (hsecond x).mpr ⟨z, hz, hzx⟩, hxy⟩
    · rw [if_neg hm, if_neg (mt minute_of_hour hm), if_neg (mt minute_of_day hm)]
      refine ⟨htick, fun y => ?_⟩
      simp only [if_neg hm, Option.bind_fun_some]
      exact hsecond y

/-- The only references to the entry are in one place. -/
structure Sole (w : TimingWheel) (e : Nat) (x : Spot) : Prop where
  has : w.Has x
  owned : x.item.owned = e
  only : ∀ y, w.Has y → y.item.owned = e → y = x

theorem Sole.owns {w : TimingWheel} {e : Nat} {x : Spot} (h : w.Sole e x) : w.owns e = true :=
  owns_iff.mpr ⟨x, h.has, h.owned⟩

end TimingWheel

theorem turn_owned {k : Nat} {x y : Spot} (h : x.turn k = some y) :
    y.item.owned = x.item.owned := by
  unfold Spot.turn at h
  obtain ⟨z, hz, hy⟩ := Option.bind_eq_some_iff.mp h
  rw [← pop_owned hz]
  split at hy
  · exact pop_owned hy
  · rw [Option.some.inj hy]

theorem place_second {delay e : Nat} (hpos : delay ≠ 0) (h : delay < 60) :
    place delay e = some ⟨.second, delay - 1, .entry e⟩ := by
  unfold place kTimingMinute
  rw [if_neg hpos, if_pos h]

theorem place_minute {delay e : Nat} (hle : 60 ≤ delay) (h : delay < 3600) :
    place delay e = some ⟨.minute, delay / 60 - 1, .callback (delay % 60) e⟩ := by
  unfold place kTimingMinute kTimingHour
  rw [if_neg (by omega), if_neg (by omega), if_pos h]

theorem life_second (tick i e : Nat) : Spot.life tick ⟨.second, i, .entry e⟩ = some (i + 1) := rfl

theorem life_minute (tick i second e : Nat) :
    Spot.life tick ⟨.minute, i, .callback second e⟩ = some (60 - tick % 60 + (60 * i + second)) := rfl

theorem never_life {tick : Nat} {x : Spot} (h : x.life tick = none) : x.life (tick + 1) = none := by
  obtain ⟨type, i, item⟩ := x
  cases type <;> cases item <;> first | rfl | exact absurd h nofun

/-- A tick takes one off what a spot has left. -/
theorem turn_life (tick : Nat) {x : Spot} (hx : x.Placed) :
    match x.life tick with
    | none => x.turn (tick + 1) = some x
    | some n => n = 1 ∧ x.turn (tick + 1) = none ∨
        ∃ y, 1 < n ∧ x.turn (tick + 1) = some y ∧ y.Placed ∧ y.life (tick + 1) = some (n - 1) := by
  obtain ⟨type, i, item⟩ := x
  cases type with
  | second =>
      cases item with
      | callback second e => exact hx.elim
      | entry e =>
          cases i with
          | zero => exact .inl ⟨rfl, rfl⟩
          | succ i =>
              refine .inr ⟨⟨.second, i, .entry e⟩, Nat.succ_lt_succ (Nat.succ_pos i), ?_, trivial, rfl⟩
              change (if _ then some _ else some _) = _
              exact ite_self _
  | minute =>
      cases item with
      | entry e => exact hx.elim
      | callback second e =>
          have hs : second < 60 := hx
          have hpop : Spot.turn (tick + 1) ⟨.minute, i, .callback second e⟩ =
              if (tick + 1) % 60 = 0 then Spot.pop .minute ⟨.minute, i, .callback second e⟩
              else some ⟨.minute, i, .callback second e⟩ := rfl
          rw [hpop]
          rw [life_minute]
          dsimp only
          by_cases hk : (tick + 1) % 60 = 0
          · rw [if_pos hk]
            cases i with
            | zero =>
                change _ ∧ place second e = none ∨ ∃ y, _ ∧ place second e = some y ∧ _
                by_cases hzero : second = 0
                · refine .inl ⟨by omega, ?_⟩
                  rw [place, if_pos hzero]
                · refine .inr ⟨_, by omega, place_second hzero hs, trivial, ?_⟩
                  rw [life_second]
                  congr 1
                  omega
            | succ i =>
                refine .inr ⟨⟨.minute, i, .callback second e⟩, by omega, rfl, hs, ?_⟩
                rw [life_minute]
                congr 1
                omega
          · rw [if_neg hk]
            refine .inr ⟨⟨.minute, i, .callback second e⟩, by omega, rfl, hs, ?_⟩
            rw [life_minute]
            congr 1
            omega
  | hour =>
      change (if _ then some _ else some _) = _
      exact ite_self _
  | day =>
      change (if _ then some _ else some _) = _
      exact ite_self _

namespace TimingWheel

/-- A timer call moves the entry with its spot, or releases it. -/
theorem Sole.tick {w : TimingWheel} {e k : Nat} {x : Spot} (h : w.Sole e x) (w' : TimingWheel)
    (hw : ∀ y, w'.Has y ↔ ∃ x, w.Has x ∧ x.turn k = some y) :
    (∀ y, x.turn k = some y → w'.Sole e y) ∧ (x.turn k = none → w'.owns e = false) := by
  have honly : ∀ y, w'.Has y → y.item.owned = e → x.turn k = some y := by
    intro y hy he
    obtain ⟨z, hz, hzy⟩ := (hw y).mp hy
    obtain rfl := h.only z hz ((turn_owned hzy).symm.trans he)
    exact hzy
  constructor
  · intro y hy
    refine ⟨(hw y).mpr ⟨x, h.has, hy⟩, (turn_owned hy).trans h.owned, fun z hz he => ?_⟩
    exact Option.some.inj ((honly z hz he).symm.trans hy)
  · intro hnone
    rw [Bool.eq_false_iff]
    intro howns
    obtain ⟨y, hy, he⟩ := owns_iff.mp howns
    exact absurd ((honly y hy he).symm.trans hnone) nofun

theorem Sole.insert {w : TimingWheel} {e : Nat} {x : Spot} (h : w.Sole e x) (delay : Nat) {e' : Nat}
    (hne : e' ≠ e) : (w.insertEntry delay e').Sole e x := by
  refine ⟨has_insertEntry.mpr (.inl h.has), h.owned, fun y hy he => ?_⟩
  rcases has_insertEntry.mp hy with hy | hy
  · exact h.only y hy he
  · exact absurd ((place_owned hy).symm.trans he) hne

theorem not_owns_insert {w : TimingWheel} {e : Nat} (h : w.owns e = false) (delay : Nat) {e' : Nat}
    (hne : e' ≠ e) : (w.insertEntry delay e').owns e = false := by
  rw [Bool.eq_false_iff] at h ⊢
  intro howns
  obtain ⟨y, hy, he⟩ := owns_iff.mp howns
  rcases has_insertEntry.mp hy with hy | hy
  · exact h (owns_iff.mpr ⟨y, hy, he⟩)
  · exact hne ((place_owned hy).symm.trans he)

theorem not_owns_timer {w : TimingWheel} {e : Nat} (h : w.owns e = false) (now : Int) :
    (w.onTimer now).owns e = false := by
  rw [Bool.eq_false_iff] at h ⊢
  intro howns
  obtain ⟨y, hy, he⟩ := owns_iff.mp howns
  rcases w.onTimer_cases now with ⟨ts, hts⟩ | ⟨-, hturn⟩
  · rw [hts] at hy
    exact h (owns_iff.mpr ⟨y, hy, he⟩)
  · obtain ⟨x, hx, hxy⟩ := (hturn y).mp hy
    exact h (owns_iff.mpr ⟨x, hx, (turn_owned hxy).symm.trans he⟩)

theorem releases_gone {w : TimingWheel} {e : Nat} (ops : List WheelOp) (h : w.owns e = false)
    (hops : ∀ delay, .insert delay e ∉ ops) : releases e w ops = [] := by
  induction ops generalizing w with
  | nil => rfl
  | cons op ops ih =>
      have hnext : (w.step op).owns e = false := by
        cases op with
        | timer now => exact not_owns_timer h now
        | insert delay e' =>
            refine not_owns_insert h delay ?_
            rintro rfl
            exact hops delay List.mem_cons_self
      rw [releases, h, ih hnext fun delay hmem => hops delay (List.mem_cons_of_mem _ hmem)]
      rfl

theorem run_cons (w : TimingWheel) (op : WheelOp) (ops : List WheelOp) :
    w.run (op :: ops) = (w.step op).run ops := rfl

theorem le_step_tick (w : TimingWheel) (op : WheelOp) : w.tick ≤ (w.step op).tick := by
  cases op with
  | insert delay e => exact Nat.le_of_eq (insertEntry_tick w delay e).symm
  | timer now =>
      rcases w.onTimer_cases now with ⟨ts, hts⟩ | ⟨htick, -⟩
      · exact Nat.le_of_eq (congrArg TimingWheel.tick hts).symm
      · exact Nat.le_trans (Nat.le_succ w.tick) (Nat.le_of_eq htick.symm)

theorem le_run_tick (w : TimingWheel) (ops : List WheelOp) : w.tick ≤ (w.run ops).tick := by
  induction ops generalizing w with
  | nil => exact Nat.le_refl _
  | cons op ops ih => exact Nat.le_trans (le_step_tick w op) (ih (w.step op))

theorem Sole.releases_cons {w : TimingWheel} {e : Nat} {x y : Spot} {op : WheelOp} (h : w.Sole e x)
    (hy : (w.step op).Sole e y) (ops : List WheelOp) : releases e w (op :: ops) = releases e (w.step op) ops := by
  rw [releases, h.owns, hy.owns]
  rfl

/-- Followed over a run, the entry is released when its life is over, once, or never. -/
theorem releases_sole {w : TimingWheel} {e : Nat} {x : Spot} (ops : List WheelOp) (h : w.Sole e x)
    (hx : x.Placed) (hops : ∀ delay, .insert delay e ∉ ops) :
    releases e w ops = match x.life w.tick with
      | none => []
      | some n => if w.tick + n ≤ (w.run ops).tick then [w.tick + n] else [] := by
  induction ops generalizing w x with
  | nil =>
      have hlife := turn_life w.tick hx
      cases hn : x.life w.tick with
      | none => rfl
      | some n =>
          rw [hn] at hlife
          have hpos : 0 < n := by
            rcases hlife with ⟨rfl, -⟩ | ⟨-, h1, -⟩
            · exact Nat.one_pos
            · exact Nat.lt_of_succ_lt h1
          exact (if_neg (Nat.not_le.mpr (Nat.lt_add_of_pos_right hpos))).symm
  | cons op ops ih =>
      have hrest : ∀ delay, .insert delay e ∉ ops :=
        fun delay hmem => hops delay (List.mem_cons_of_mem _ hmem)
      cases op with
      | insert delay e' =>
          have hne : e' ≠ e := by
            rintro rfl
            exact hops delay List.mem_cons_self
          have hs : (w.step (.insert delay e')).Sole e x := h.insert delay hne
          have htick : (w.step (.insert delay e')).tick = w.tick := insertEntry_tick w delay e'
          rw [h.releases_cons hs, ih hs hx hrest, htick]
          rfl
      | timer now =>
          rcases w.onTimer_cases now with ⟨ts, hts⟩ | ⟨htick, hturn⟩
          · have hstep : w.step (.timer now) = { w with lastTs := ts } := hts
            have hs : (w.step (.timer now)).Sole e x := by
              rw [hstep]
              exact ⟨h.has, h.owned, h.only⟩
            have hsame : (w.step (.timer now)).tick = w.tick := by rw [hstep]
            rw [h.releases_cons hs, ih hs hx hrest, hsame]
            rfl
          · obtain ⟨hmove, hgone⟩ := h.tick (w.step (.timer now)) hturn
            have htick' : (w.step (.timer now)).tick = w.tick + 1 := htick
            have hlife := turn_life w.tick hx
            rw [run_cons]
            cases hn : x.life w.tick with
            | none =>
                rw [hn] at hlife
                have hs := hmove x hlife
                have hstay : x.life (w.tick + 1) = none := never_life hn
                rw [h.releases_cons hs, ih hs hx hrest, htick', hstay]
            | some n =>
                rw [hn] at hlife
                dsimp only at hlife ⊢
                rcases hlife with ⟨rfl, hnone⟩ | ⟨y, h1, hy, hplaced, hleft⟩
                · have hle := le_run_tick (w.step (.timer now)) ops
                  rw [htick'] at hle
                  rw [releases, h.owns, hgone hnone, releases_gone ops (hgone hnone) hrest, htick',
                    if_pos hle]
                  rfl
                · have hs := hmove y hy
                  have hsum : w.tick + 1 + (n - 1) = w.tick + n := by omega
                  rw [h.releases_cons hs, ih hs hplaced hrest, htick', hleft]
                  dsimp only
                  rw [hsum]

theorem insertEntry_sole {w : TimingWheel} {delay e : Nat} {x : Spot} (hnew : w.owns e = false)
    (hx : place delay e = some x) : (w.insertEntry delay e).Sole e x := by
  refine ⟨has_insertEntry.mpr (.inr hx), place_owned hx, fun y hy he => ?_⟩
  rcases has_insertEntry.mp hy with hy | hy
  · exact absurd (owns_iff.mpr ⟨y, hy, he⟩) (by rw [hnew]; exact Bool.false_ne_true)
  · exact Option.some.inj (hy.symm.trans hx)

/-- The entry inserted now with this delay is released at its tick, once, in every run from here in
which it has no other owner. -/
def Accurate (w : TimingWheel) (delay e : Nat) : Prop :=
  ∀ ops : List WheelOp, (∀ delay', .insert delay' e ∉ ops) →
    releases e (w.insertEntry delay e) ops =
      if w.tick + delay ≤ ((w.insertEntry delay e).run ops).tick then [w.tick + delay] else []

/-- What `InsertEntry` gives an entry: its delay, less the seconds of the minute gone where it waits
for the wheel of minutes. -/
theorem place_life (tick e : Nat) {delay : Nat} (hpos : 1 ≤ delay)
    (hmax : delay ≤ 30 * kTimingDay) : ∃ x, place delay e = some x ∧ x.Placed ∧ x.life tick =
      if delay < 60 then some delay
      else if delay < 3600 then some (delay - tick % 60)
      else none := by
  unfold kTimingDay at hmax
  by_cases hs : delay < 60
  · refine ⟨_, place_second (by omega) hs, trivial, ?_⟩
    rw [if_pos hs, life_second]
    congr 1
    omega
  by_cases hm : delay < 3600
  · refine ⟨_, place_minute (by omega) hm, Nat.mod_lt _ (by decide), ?_⟩
    rw [if_neg hs, if_pos hm, life_minute]
    congr 1
    omega
  rw [if_neg hs, if_neg hm]
  unfold place kTimingMinute kTimingHour kTimingDay
  rw [if_neg (by omega), if_neg hs, if_neg hm]
  by_cases hh : delay < 86400
  · rw [if_pos hh]
    exact ⟨_, rfl, trivial, rfl⟩
  · rw [if_neg hh, if_neg (by omega)]
    exact ⟨_, rfl, trivial, rfl⟩

theorem onTimer_tick {w : TimingWheel} {now : Int} (hstart : w.lastTs ≠ 0)
    (hnow : w.lastTs + 1000 ≤ now) : (w.onTimer now).tick = w.tick + 1 := by
  unfold onTimer
  dsimp only
  rw [if_neg hstart, if_neg (by omega)]
  split
  · rw [popUp_tick, popUp_tick]
  · split
    · rw [popUp_tick, popUp_tick]
    · split
      · rw [popUp_tick, popUp_tick]
      · rw [popUp_tick]

theorem exists_tick (w : TimingWheel) : ∃ ops : List WheelOp, (∀ delay e, .insert delay e ∉ ops) ∧
    (w.run ops).tick = w.tick + 1 := by
  by_cases hstart : w.lastTs = 0
  · refine ⟨[.timer 1, .timer 1001], fun delay e => by simp, ?_⟩
    have hset : w.onTimer 1 = { w with lastTs := 1 } := by
      unfold onTimer
      dsimp only
      rw [if_pos hstart, if_pos (show (1 : Int) - 1 < 1000 by decide)]
    change ((w.onTimer 1).onTimer 1001).tick = _
    rw [hset]
    exact onTimer_tick Int.one_ne_zero (Int.le_refl _)
  · exact ⟨[.timer (w.lastTs + 1000)], fun delay e => by simp, onTimer_tick hstart (Int.le_refl _)⟩

theorem exists_ticks (w : TimingWheel) (n : Nat) :
    ∃ ops : List WheelOp, (∀ delay e, .insert delay e ∉ ops) ∧ (w.run ops).tick = w.tick + n := by
  induction n with
  | zero => exact ⟨[], fun _ _ => List.not_mem_nil, rfl⟩
  | succ n ih =>
      obtain ⟨ops, hops, htick⟩ := ih
      obtain ⟨ops', hops', htick'⟩ := exists_tick (w.run ops)
      refine ⟨ops ++ ops', fun delay e hmem => ?_, ?_⟩
      · exact (List.mem_append.mp hmem).elim (hops delay e) (hops' delay e)
      · rw [run, List.foldl_append]
        change ((w.run ops).run ops').tick = _
        rw [htick', htick]
        rfl

/-- The wheel is accurate for delays below a minute, and for those below an hour at a full minute. -/
theorem accurate_iff (w : TimingWheel) (delay e : Nat) (hnew : w.owns e = false) (hpos : 1 ≤ delay)
    (hmax : delay ≤ 30 * kTimingDay) :
    w.Accurate delay e ↔
      delay < kTimingMinute ∨ delay < kTimingHour ∧ w.tick % kTimingMinute = 0 := by
  obtain ⟨x, hx, hplaced, hlife⟩ := place_life w.tick e hpos hmax
  have hs := insertEntry_sole hnew hx
  have hall := fun ops hops => releases_sole (e := e) ops hs hplaced hops
  rw [insertEntry_tick, hlife] at hall
  change _ ↔ delay < 60 ∨ delay < 3600 ∧ w.tick % 60 = 0
  constructor
  · intro hacc
    obtain ⟨ops, hops, htick⟩ := exists_ticks (w.insertEntry delay e) delay
    have hcode := hall ops fun delay' => hops delay' e
    rw [hacc ops fun delay' => hops delay' e, htick, insertEntry_tick,
      if_pos (Nat.le_refl _)] at hcode
    by_cases hs : delay < 60
    · exact .inl hs
    rw [if_neg hs] at hcode
    by_cases hm : delay < 3600
    · rw [if_pos hm] at hcode
      dsimp only at hcode
      rw [if_pos (by omega)] at hcode
      have hsame : w.tick + delay = w.tick + (delay - w.tick % 60) := (List.cons.inj hcode).1
      exact .inr ⟨hm, by omega⟩
    · rw [if_neg hm] at hcode
      exact absurd hcode (List.cons_ne_nil _ _)
  · rintro (hs | ⟨hm, halign⟩) ops hops
    · rw [hall ops hops, if_pos hs]
    · rw [hall ops hops, if_pos hm, halign, Nat.sub_zero, ite_self]

/-- An entry with half a minute to live, in the first wheel state. -/
theorem accurate_iff_halfMinute : ({} : TimingWheel).Accurate 30 1 ↔ 30 < kTimingMinute ∨
    30 < kTimingHour ∧ ({} : TimingWheel).tick % kTimingMinute = 0 :=
  accurate_iff {} 30 1 (by decide) (by decide) (by decide)

/-- An entry inserted for an hour is never released. -/
theorem hour_not_accurate :
    ¬ ∀ (w : TimingWheel) (delay e : Nat), w.owns e = false → 1 ≤ delay → delay ≤ 30 * kTimingDay →
      w.Accurate delay e := by
  intro h
  have hx : place 3600 1 = some ⟨.hour, 0, .callback 0 1⟩ := by decide
  obtain ⟨ops, hops, htick⟩ := exists_ticks (({} : TimingWheel).insertEntry 3600 1) 3600
  have hcode := releases_sole (e := 1) ops (insertEntry_sole (w := {}) (by decide) hx) trivial fun delay => hops delay 1
  rw [h {} 3600 1 (by decide) (by decide) (by decide) ops fun delay => hops delay 1, htick,
    if_pos (by decide)] at hcode
  exact absurd hcode (List.cons_ne_nil _ _)

end TimingWheel
end TmmsServer
