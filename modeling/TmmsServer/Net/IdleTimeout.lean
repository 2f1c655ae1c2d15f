import Mathlib.Data.List.Infix
import TmmsServer.Net.WheelAccuracy

/-!
# The idle timeout of a connection

`EnableCheckIdleTimeout` puts a `TimeoutEntry` into the wheel and keeps a weak
reference to it; every read puts it in once more. The entry calls `OnTimeout` when
its last reference goes.
-/
namespace TmmsServer

/-- A connection with the wheel of its loop. The entries of others have other numbers than its own. -/
structure TimedConnection where
  wheel : TimingWheel
  closed : Bool := false
  timeoutEntry : Option Nat := none
  maxIdleTime : Nat := 30
  /-- The ticks at which `OnTimeout` was called. -/
  timeouts : List Nat := []

inductive IdleOp where
  | read
  | timer (now : Int)
  | insert (delay e : Nat)
  deriving DecidableEq, Repr

namespace TimedConnection

def onTimeout (s : TimedConnection) : TimedConnection :=
  { s with closed := true, timeouts := s.timeouts ++ [s.wheel.tick] }

/-- A local reference to the entry goes, or the wheel may have dropped one: the destructor of the
entry runs with the last. -/
def drop (s : TimedConnection) (e : Nat) : TimedConnection :=
  if s.wheel.owns e then s else s.onTimeout

/-- `e` is the entry made by the call. -/
def enableCheckIdleTimeout (s : TimedConnection) (maxTime e : Nat) : TimedConnection :=
  drop { s with
    maxIdleTime := maxTime
    timeoutEntry := some e
    wheel := s.wheel.insertEntry maxTime e } e

/-- The weak reference, while the entry lives. -/
def lock (s : TimedConnection) : Option Nat := s.timeoutEntry.filter s.wheel.owns

def extendLife (s : TimedConnection) : TimedConnection :=
  match s.lock with
  | some e => drop { s with wheel := s.wheel.insertEntry s.maxIdleTime e } e
  | none => s

/-- `OnRead`, as far as the timeout is concerned. -/
def onRead (s : TimedConnection) : TimedConnection := if s.closed then s else s.extendLife

/-- Something else happens to the wheel. -/
def wheelStep (s : TimedConnection) (op : WheelOp) : TimedConnection :=
  match s.lock with
  | some e => drop { s with wheel := s.wheel.step op } e
  | none => { s with wheel := s.wheel.step op }

def step (s : TimedConnection) : IdleOp → TimedConnection
  | .read => s.onRead
  | .timer now => s.wheelStep (.timer now)
  | .insert delay e => s.wheelStep (.insert delay e)

def run (s : TimedConnection) (ops : List IdleOp) : TimedConnection := ops.foldl step s

/-- How many ticks ago the entry was last put in: `n` at the start, and none after a read. -/
def idleTicks (s : TimedConnection) (n : Nat) : List IdleOp → Nat
  | [] => n
  | .read :: ops => idleTicks (s.step .read) 0 ops
  | op :: ops => idleTicks (s.step op) (n + ((s.step op).wheel.tick - s.wheel.tick)) ops

/-- The connection waits: its entry was last put in `n` ticks ago, and the wheel holds it in no
place that comes up later than the one it got then. -/
structure Waiting (s : TimedConnection) (m e n : Nat) : Prop where
  isOpen : s.closed = false
  entry : s.timeoutEntry = some e
  idle : s.maxIdleTime = m
  quiet : s.timeouts = []
  lt : n < m
  last : s.wheel.Has ⟨.second, m - n - 1, .entry e⟩
  places : ∀ x, s.wheel.Has x → x.item.owned = e → ∃ i, x = ⟨.second, i, .entry e⟩ ∧ i + n < m

/-- The entry is gone. -/
structure Expired (s : TimedConnection) (e k : Nat) : Prop where
  closed : s.closed = true
  entry : s.timeoutEntry = some e
  gone : s.wheel.owns e = false
  fired : s.timeouts = [k]

theorem Waiting.owns {s : TimedConnection} {m e n : Nat} (h : s.Waiting m e n) :
    s.wheel.owns e = true :=
  TimingWheel.owns_iff.mpr ⟨_, h.last, rfl⟩

theorem Waiting.lock {s : TimedConnection} {m e n : Nat} (h : s.Waiting m e n) :
    s.lock = some e := by
  unfold TimedConnection.lock
  rw [h.entry, Option.filter_some, h.owns]
  rfl

theorem Expired.lock {s : TimedConnection} {e k : Nat} (h : s.Expired e k) : s.lock = none := by
  unfold TimedConnection.lock
  rw [h.entry, Option.filter_some, h.gone]
  rfl

theorem Waiting.keep {s : TimedConnection} {m e n n' : Nat} (h : s.Waiting m e n) (w : TimingWheel)
    (hlt : n' < m) (hlast : w.Has ⟨.second, m - n' - 1, .entry e⟩)
    (hplaces : ∀ x, w.Has x → x.item.owned = e → ∃ i, x = ⟨.second, i, .entry e⟩ ∧ i + n' < m) :
    (drop { s with wheel := w } e).Waiting m e n' := by
  have howns : w.owns e = true := TimingWheel.owns_iff.mpr ⟨_, hlast, rfl⟩
  unfold drop
  rw [if_pos howns]
  exact ⟨h.isOpen, h.entry, h.idle, h.quiet, hlt, hlast, hplaces⟩

theorem Waiting.read {s : TimedConnection} {m e n : Nat} (h : s.Waiting m e n) (hm : m < 60) :
    (s.step .read).Waiting m e 0 := by
  have hplace : place m e = some ⟨.second, m - 1, .entry e⟩ :=
    place_second (Nat.ne_of_gt (Nat.zero_lt_of_lt h.lt)) hm
  have hread : s.step .read = drop { s with wheel := s.wheel.insertEntry m e } e := by
    change s.onRead = _
    unfold onRead extendLife
    rw [h.isOpen, h.lock, h.idle]
    rfl
  rw [hread]
  refine h.keep _ (Nat.zero_lt_of_lt h.lt) (TimingWheel.has_insertEntry.mpr (.inr hplace)) ?_
  intro x hx he
  rcases TimingWheel.has_insertEntry.mp hx with hx | hx
  · obtain ⟨i, rfl, hi⟩ := h.places x hx he
    exact ⟨i, rfl, Nat.lt_of_le_of_lt (Nat.le_add_right i n) hi⟩
  · obtain rfl := Option.some.inj (hplace.symm.trans hx)
    exact ⟨m - 1, rfl, Nat.sub_lt (Nat.zero_lt_of_lt h.lt) Nat.one_pos⟩

theorem Waiting.wheelStep {s : TimedConnection} {m e n : Nat} (h : s.Waiting m e n) (op : WheelOp) :
    s.wheelStep op = drop { s with wheel := s.wheel.step op } e := by
  unfold TimedConnection.wheelStep
  rw [h.lock]

theorem Waiting.insert {s : TimedConnection} {m e n : Nat} (h : s.Waiting m e n) (delay : Nat)
    {e' : Nat} (hne : e' ≠ e) : (s.step (.insert delay e')).Waiting m e n := by
  have hstep : s.step (.insert delay e') =
      drop { s with wheel := s.wheel.insertEntry delay e' } e := h.wheelStep _
  rw [hstep]
  refine h.keep _ h.lt (TimingWheel.has_insertEntry.mpr (.inl h.last)) ?_
  intro x hx he
  rcases TimingWheel.has_insertEntry.mp hx with hx | hx
  · exact h.places x hx he
  · exact absurd ((place_owned hx).symm.trans he) hne

theorem turn_second_succ (k i e : Nat) :
    Spot.turn k ⟨.second, i + 1, .entry e⟩ = some ⟨.second, i, .entry e⟩ := by
  change (if _ then some _ else some _) = _
  exact ite_self _

/-- A call of the timer is no tick, or a tick after which the connection waits on, or the tick of its timeout. -/
theorem Waiting.timer {s : TimedConnection} {m e n : Nat} (h : s.Waiting m e n) (now : Int) :
    (s.step (.timer now)).wheel.tick = s.wheel.tick ∧ (s.step (.timer now)).Waiting m e n ∨
      (s.step (.timer now)).wheel.tick = s.wheel.tick + 1 ∧
        (n + 1 < m ∧ (s.step (.timer now)).Waiting m e (n + 1) ∨
          n + 1 = m ∧ (s.step (.timer now)).Expired e (s.wheel.tick + 1)) := by
  have hstep : s.step (.timer now) = drop { s with wheel := s.wheel.onTimer now } e := h.wheelStep _
  have htick : (drop { s with wheel := s.wheel.onTimer now } e).wheel.tick =
      (s.wheel.onTimer now).tick := by
    unfold drop
    split <;> rfl
  rw [hstep, htick]
  rcases s.wheel.onTimer_cases now with ⟨ts, hts⟩ | ⟨hnext, hturn⟩
  · left
    rw [hts]
    exact ⟨rfl, h.keep _ h.lt h.last h.places⟩
  · right
    refine ⟨hnext, ?_⟩
    by_cases hlt : n + 1 < m
    · left
      refine ⟨hlt, h.keep _ hlt ?_ ?_⟩
      · refine (hturn _).mpr ⟨_, h.last, ?_⟩
        have hslot : m - n - 1 = m - (n + 1) - 1 + 1 := by omega
        rw [hslot]
        exact turn_second_succ _ _ _
      · intro y hy he
        obtain ⟨x, hx, hxy⟩ := (hturn y).mp hy
        obtain ⟨i, rfl, hi⟩ := h.places x hx ((turn_owned hxy).symm.trans he)
        cases i with
        | zero => exact absurd hxy nofun
        | succ i =>
            rw [turn_second_succ] at hxy
            obtain rfl := Option.some.inj hxy
            exact ⟨i, rfl, by omega⟩
    · right
      have hgone : (s.wheel.onTimer now).owns e = false := by
        rw [Bool.eq_false_iff]
        intro howns
        obtain ⟨y, hy, he⟩ := TimingWheel.owns_iff.mp howns
        obtain ⟨x, hx, hxy⟩ := (hturn y).mp hy
        obtain ⟨i, rfl, hi⟩ := h.places x hx ((turn_owned hxy).symm.trans he)
        have hfirst : i = 0 := by
          have hn := h.lt
          omega
        subst hfirst
        exact absurd hxy nofun
      unfold drop
      rw [if_neg (Bool.eq_false_iff.mp hgone)]
      refine ⟨Nat.le_antisymm h.lt (Nat.not_lt.mp hlt), rfl, h.entry, hgone, ?_⟩
      change s.timeouts ++ [(s.wheel.onTimer now).tick] = _
      rw [h.quiet, hnext]
      rfl

/-- After the timeout nothing more happens. -/
theorem Expired.step {s : TimedConnection} {e k : Nat} (h : s.Expired e k) (op : IdleOp)
    (hop : ∀ delay, op ≠ .insert delay e) : (s.step op).Expired e k := by
  cases op with
  | read =>
      change s.onRead.Expired e k
      unfold onRead
      rw [h.closed]
      exact h
  | timer now =>
      change (s.wheelStep _).Expired e k
      unfold TimedConnection.wheelStep
      rw [h.lock]
      exact ⟨h.closed, h.entry, TimingWheel.not_owns_timer h.gone now, h.fired⟩
  | insert delay e' =>
      have hne : e' ≠ e := fun heq => hop delay (heq ▸ rfl)
      change (s.wheelStep _).Expired e k
      unfold TimedConnection.wheelStep
      rw [h.lock]
      exact ⟨h.closed, h.entry, TimingWheel.not_owns_insert h.gone delay hne, h.fired⟩

theorem Expired.run {s : TimedConnection} {e k : Nat} (h : s.Expired e k) (ops : List IdleOp)
    (hops : ∀ delay, .insert delay e ∉ ops) : (s.run ops).Expired e k := by
  induction ops generalizing s with
  | nil => exact h
  | cons op ops ih =>
      refine ih (h.step op ?_) fun delay hmem => hops delay (List.mem_cons_of_mem _ hmem)
      rintro delay rfl
      exact hops delay List.mem_cons_self

theorem idleTicks_cons (s : TimedConnection) (n : Nat) (op : IdleOp) (ops : List IdleOp) :
    s.idleTicks n (op :: ops) = (s.step op).idleTicks (s.idleTicks n [op]) ops := by
  cases op <;> rfl

/-- One step: the connection waits on, or the `m`-th tick since the last insertion is the one of its timeout. -/
theorem Waiting.step {s : TimedConnection} {m e n : Nat} (h : s.Waiting m e n) (hm : m < 60)
    (op : IdleOp) (hop : ∀ delay, op ≠ .insert delay e) :
    (s.step op).Waiting m e (s.idleTicks n [op]) ∨
      s.idleTicks n [op] = m ∧ (s.step op).Expired e (s.step op).wheel.tick := by
  cases op with
  | read => exact .inl (h.read hm)
  | insert delay e' =>
      have hne : e' ≠ e := fun heq => hop delay (heq ▸ rfl)
      have hnext := h.insert delay hne
      have htick : (s.step (.insert delay e')).wheel.tick = s.wheel.tick := by
        change (s.wheelStep _).wheel.tick = _
        rw [h.wheelStep, drop]
        split <;> exact TimingWheel.insertEntry_tick s.wheel delay e'
      have hsame : s.idleTicks n [.insert delay e'] = n := by
        change n + ((s.step (.insert delay e')).wheel.tick - s.wheel.tick) = n
        rw [htick, Nat.sub_self, Nat.add_zero]
      rw [hsame]
      exact .inl hnext
  | timer now =>
      have hticks : s.idleTicks n [.timer now] =
          n + ((s.step (.timer now)).wheel.tick - s.wheel.tick) := rfl
      rcases h.timer now with ⟨htick, hw⟩ | ⟨htick, ⟨-, hw⟩ | ⟨hdue, hex⟩⟩
      · rw [hticks, htick, Nat.sub_self]
        exact .inl hw
      · rw [hticks, htick, Nat.add_sub_cancel_left]
        exact .inl hw
      · rw [hticks, htick, Nat.add_sub_cancel_left]
        exact .inr ⟨hdue, hex⟩

/-- A run in which the idle time is never over, or one with the first moment at which it is. -/
theorem Waiting.run {s : TimedConnection} {m e n : Nat} (h : s.Waiting m e n) (hm : m < 60)
    (ops : List IdleOp) (hops : ∀ delay, .insert delay e ∉ ops) :
    (∀ pre, pre <+: ops → s.idleTicks n pre ≠ m) ∧ (s.run ops).timeouts = [] ∨
      ∃ pre, pre <+: ops ∧ s.idleTicks n pre = m ∧
        (∀ pre', pre' <+: pre → s.idleTicks n pre' = m → pre' = pre) ∧
        (s.run ops).timeouts = [(s.run pre).wheel.tick] := by
  induction ops generalizing s n with
  | nil =>
      refine .inl ⟨fun pre hpre => ?_, h.quiet⟩
      rw [List.prefix_nil.mp hpre]
      exact Nat.ne_of_lt h.lt
  | cons op ops ih =>
      have hrest : ∀ delay, .insert delay e ∉ ops :=
        fun delay hmem => hops delay (List.mem_cons_of_mem _ hmem)
      have hop : ∀ delay, op ≠ .insert delay e :=
        fun delay heq => hops delay (heq ▸ List.mem_cons_self)
      rcases h.step hm op hop with hw | ⟨hdue, hex⟩
      · rcases ih hw hrest with ⟨hnever, hquiet⟩ | ⟨pre, hpre, hdue, hfirst, hfired⟩
        · refine .inl ⟨fun pre hpre => ?_, hquiet⟩
          rcases List.prefix_cons_iff.mp hpre with rfl | ⟨pre, rfl, hle⟩
          · exact Nat.ne_of_lt h.lt
          · rw [idleTicks_cons]
            exact hnever pre hle
        · refine .inr ⟨op :: pre, List.cons_prefix_cons.mpr ⟨rfl, hpre⟩, (idleTicks_cons s n op pre).trans hdue,
            fun pre' hpre' hdue' => ?_, hfired⟩
          rcases List.prefix_cons_iff.mp hpre' with rfl | ⟨pre', rfl, hle⟩
          · exact absurd hdue' (Nat.ne_of_lt h.lt)
          · rw [idleTicks_cons] at hdue'
            rw [hfirst pre' hle hdue']
      · refine .inr ⟨[op], List.cons_prefix_cons.mpr ⟨rfl, List.nil_prefix⟩, hdue, fun pre' hpre' hdue' => ?_,
          (hex.run ops hrest).fired⟩
        rcases List.prefix_cons_iff.mp hpre' with rfl | ⟨pre', rfl, hle⟩
        · exact absurd hdue' (Nat.ne_of_lt h.lt)
        · rw [List.prefix_nil.mp hle]

theorem enable_waiting {w : TimingWheel} {m e : Nat} (hpos : 1 ≤ m) (hm : m < 60)
    (hnew : w.owns e = false) : (enableCheckIdleTimeout { wheel := w } m e).Waiting m e 0 := by
  have hplace : place m e = some ⟨.second, m - 1, .entry e⟩ := place_second (Nat.ne_of_gt hpos) hm
  have hsole := TimingWheel.insertEntry_sole hnew hplace
  unfold enableCheckIdleTimeout drop
  rw [if_pos hsole.owns]
  refine ⟨rfl, rfl, rfl, rfl, hpos, hsole.has, fun x hx he => ?_⟩
  rw [hsole.only x hx he]
  exact ⟨m - 1, rfl, Nat.sub_lt hpos Nat.one_pos⟩

/-- `OnTimeout` is called at the first tick that is the `m`-th since the enabling call or the latest
read, once, and not before. -/
theorem idleTimeout_exact (w : TimingWheel) (m e : Nat) (hpos : 1 ≤ m) (hmax : m ≤ 59)
    (hnew : w.owns e = false) (ops : List IdleOp) (hops : ∀ delay, .insert delay e ∉ ops) :
    let s := enableCheckIdleTimeout { wheel := w } m e
    ((∀ pre, pre <+: ops → s.idleTicks 0 pre ≠ m) → (s.run ops).timeouts = []) ∧
      ∀ pre, pre <+: ops → s.idleTicks 0 pre = m →
        (∀ pre', pre' <+: pre → s.idleTicks 0 pre' = m → pre' = pre) →
        (s.run ops).timeouts = [(s.run pre).wheel.tick] := by
  intro s
  have hm : m < 60 := Nat.lt_succ_of_le hmax
  have hwait : s.Waiting m e 0 := enable_waiting hpos hm hnew
  rcases hwait.run hm ops hops with ⟨hnever, hquiet⟩ | ⟨first, hfront, hdue, hfirst, hfired⟩
  · exact ⟨fun _ => hquiet, fun pre hpre hdue => absurd hdue (hnever pre hpre)⟩
  · refine ⟨fun hnever => absurd hdue (hnever first hfront), fun pre hpre hdue' hfirst' => ?_⟩
    rw [hfired]
    rcases List.prefix_or_prefix_of_prefix hpre hfront with hle | hle
    · rw [hfirst pre hle hdue']
    · rw [hfirst' first hle hdue]

/-- Two seconds of patience, and a read after the first: the third timer from there on is the timeout. -/
theorem idleTimeout_exact_two :
    let s := enableCheckIdleTimeout { wheel := { lastTs := 1 } } 2 7
    (s.run [.timer 1001, .read, .timer 2001, .timer 3001]).timeouts =
      [(s.run [.timer 1001, .read, .timer 2001, .timer 3001]).wheel.tick] := by
  have hops : ∀ delay, IdleOp.insert delay 7 ∉ [.timer 1001, .read, .timer 2001, .timer 3001] :=
    fun delay => by simp
  obtain ⟨-, hfires⟩ := idleTimeout_exact { lastTs := 1 } 2 7 (by decide) (by decide) (by decide) _ hops
  refine hfires _ (List.prefix_refl _) (by decide) fun pre hpre => ?_
  have hfirst : ∀ pre ∈ [IdleOp.timer 1001, .read, .timer 2001, .timer 3001].inits,
      (enableCheckIdleTimeout { wheel := { lastTs := 1 } } 2 7).idleTicks 0 pre = 2 →
        pre = [.timer 1001, .read, .timer 2001, .timer 3001] := by
    decide
  exact hfirst pre ((List.mem_inits pre _).mpr hpre)

end TimedConnection
end TmmsServer
