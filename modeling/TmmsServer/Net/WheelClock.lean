import TmmsServer.Lib.Ticker
import TmmsServer.Net.TimerTicks

/-!
# The wheel and the clock

`OnTimer` is called with the time of the clock whenever the loop comes round. Whatever
is inserted in between, the ticks are those of a ticker with a period of a second.
-/
namespace TmmsServer
open Lib

/-- `last_ts_` and `tick_`. -/
def TimingWheel.clock (w : TimingWheel) : Int × Nat := (w.lastTs, w.tick)

theorem TimingWheel.insertEntry_clock (w : TimingWheel) (delay e : Nat) :
    (w.insertEntry delay e).clock = w.clock := by
  rw [insertEntry_eq]
  cases place delay e with
  | none => rfl
  | some x => rfl

theorem TimingWheel.destroy_clock (w : TimingWheel) (item : WheelItem) : (w.destroy item).clock = w.clock := by
  cases item with
  | entry e => rfl
  | callback second e => exact w.insertEntry_clock second e

namespace Timers

section Clock
variable {s s' : Timers} {e fuel : Nat} {t : Timer} {now : Int}

theorem release_clock {again : Timers → Timer → Option Timers}
    (hagain : ∀ s t s', again s t = some s' → s'.wheel.clock = s.wheel.clock) (h : s.release again e = some s') :
    s'.wheel.clock = s.wheel.clock := by
  unfold release at h
  split at h
  · rw [Option.some.inj h]
  · cases htimer : s.timers e with
    | none =>
        rw [htimer] at h
        rw [Option.some.inj h]
    | some t =>
        rw [htimer] at h
        rcases fire_cases h with rfl | rfl | hcalled
        · rfl
        · rfl
        · have hsame := hagain _ _ _ hcalled
          exact hsame

theorem register_clock (h : s.register fuel t = some s') : s'.wheel.clock = s.wheel.clock := by
  have henter : ∀ (s : Timers) t, (s.enter t).wheel.clock = s.wheel.clock := fun s t =>
    s.wheel.insertEntry_clock t.delay.toNat s.next
  induction fuel generalizing s t s' with
  | zero =>
      have hsame := release_clock (fun _ _ _ hnone => absurd hnone.symm (Option.some_ne_none _)) h
      exact hsame.trans (henter s t)
  | succ fuel ih => exact (release_clock (fun _ _ _ => ih) h).trans (henter s t)

theorem foldlM_clock {items : List WheelItem} (h : items.foldlM (destroy fuel) s = some s') :
    s'.wheel.clock = s.wheel.clock := by
  induction items generalizing s with
  | nil => rw [Option.some.inj h]
  | cons item items ih =>
      obtain ⟨s₁, hs₁, hrest⟩ := Option.bind_eq_some_iff.mp h
      have hdestroy := release_clock (fun _ _ _ => register_clock) hs₁
      exact (ih hrest).trans (hdestroy.trans (s.wheel.destroy_clock item))

theorem popUp_clock {k : TimingType} (h : s.popUp fuel k = some s') : s'.wheel.clock = s.wheel.clock :=
  foldlM_clock (s := s.turn k) h

/-- What a call does to `last_ts_` and `tick_`: before the first second is over, and afterwards. -/
theorem onTimer_clock (h : s.onTimer fuel now = some s') :
    s'.wheel.clock =
      if s.wheel.lastTs = 0 then (now, s.wheel.tick)
      else if now - s.wheel.lastTs < 1000 then s.wheel.clock
      else (now, s.wheel.tick + 1) := by
  rw [onTimer_eq] at h
  split at h
  next hfirst =>
    rw [if_pos hfirst, ← Option.some.inj h]
    rfl
  next hfirst =>
    rw [if_neg hfirst]
    split at h
    next hearly =>
      rw [if_pos hearly, ← Option.some.inj h]
    next hlate =>
      obtain ⟨s₁, hs₁, hrest⟩ := Option.bind_eq_some_iff.mp h
      have hsecond := popUp_clock hs₁
      rw [if_neg hlate, ← show s₁.wheel.clock = (now, s.wheel.tick + 1) from hsecond]
      split at hrest
      · exact popUp_clock hrest
      · rw [Option.some.inj hrest]

theorem Insertion.clock {allowed : Nat → Prop} (h : Insertion allowed s s') : s'.wheel.clock = s.wheel.clock := by
  cases h with
  | entry delay e _ => exact s.wheel.insertEntry_clock delay e
  | timer t fuel _ hr => exact register_clock hr

end Clock

/-- Calls of `OnTimer` at these times, and any insertions between them. -/
inductive Calls : Timers → List Int → Timers → Prop
  | done (s : Timers) : Calls s [] s
  | insertion {s s₁ s' : Timers} {times : List Int} : Insertion (fun _ => True) s s₁ → Calls s₁ times s' →
      Calls s times s'
  | call {s s₁ s' : Timers} {times : List Int} (fuel : Nat) (now : Int) : s.onTimer fuel now = some s₁ →
      Calls s₁ times s' → Calls s (now :: times) s'

section Runs
variable {s s' : Timers} {first : Int} {times : List Int}

theorem Sound.calls (h : s.Sound) (times : List Int) : ∃ s', Calls s times s' := by
  induction times generalizing s with
  | nil => exact ⟨s, .done s⟩
  | cons now times ih =>
      obtain ⟨s₁, hs₁, hsound, -⟩ := onTimer_once h 0 now
      obtain ⟨s', hcalls⟩ := ih hsound
      exact ⟨s', .call 0 now hs₁ hcalls⟩

/-- Behind the first call the wheel is a ticker, by induction on the calls. -/
theorem Calls.ticks (h : Calls s times s') (hpos : ∀ now ∈ times, 0 < now) (hstarted : s.wheel.lastTs ≠ 0) :
    s'.wheel.tick = s.wheel.tick + Ticker.ticks 1000 s.wheel.lastTs times := by
  induction h with
  | done s => rfl
  | insertion hinsertion _ ih =>
      obtain ⟨hlast, htick⟩ := Prod.mk.inj hinsertion.clock
      rw [← hlast, ← htick]
      exact ih hpos (hlast ▸ hstarted)
  | call fuel now hcall _ ih =>
      have hrest := fun now h => hpos now (List.mem_cons_of_mem _ h)
      have hclock := onTimer_clock hcall
      rw [if_neg hstarted] at hclock
      unfold Ticker.ticks
      split at hclock
      next hearly =>
        obtain ⟨hlast, htick⟩ := Prod.mk.inj hclock
        rw [if_pos hearly, ← hlast, ← htick]
        exact ih hrest (hlast ▸ hstarted)
      next hlate =>
        obtain ⟨hlast, htick⟩ := Prod.mk.inj hclock
        have hnow : now ≠ 0 := Int.ne_of_gt (hpos now List.mem_cons_self)
        rw [if_neg hlate, ← hlast, ih hrest (hlast ▸ hnow), htick, Nat.add_right_comm, Nat.add_assoc]

/-- The first call sets the clock going. -/
theorem Calls.ticks_first (h : Calls s (first :: times) s') (hpos : ∀ now ∈ first :: times, 0 < now)
    (hnew : s.wheel.lastTs = 0) : s'.wheel.tick = s.wheel.tick + Ticker.ticks 1000 first times := by
  generalize hcalls : first :: times = calls at h hpos
  induction h with
  | done s => exact absurd hcalls nofun
  | insertion hinsertion _ ih =>
      obtain ⟨hlast, htick⟩ := Prod.mk.inj hinsertion.clock
      rw [← htick]
      exact ih (hlast.trans hnew) hcalls hpos
  | call fuel now hcall hrest =>
      obtain ⟨rfl, rfl⟩ := List.cons.inj hcalls
      have hclock := onTimer_clock hcall
      rw [if_pos hnew] at hclock
      obtain ⟨hlast, htick⟩ := Prod.mk.inj hclock
      have hticks := hrest.ticks (fun now h => hpos now (List.mem_cons_of_mem _ h))
        (hlast ▸ Int.ne_of_gt (hpos first List.mem_cons_self))
      rw [hticks, hlast, htick]

theorem pos_of_isChain (hpos : 0 < first) (hmono : (first :: times).IsChain (· ≤ ·)) :
    ∀ now ∈ first :: times, 0 < now := by
  intro now hnow
  rcases List.mem_cons.mp hnow with rfl | hnow
  · exact hpos
  · exact Int.lt_of_lt_of_le hpos (List.rel_of_pairwise_cons hmono.pairwise hnow)

/-- The ticks of the calls and the whole seconds between the first and the last of them. -/
def KeepsUp (s s' : Timers) (first : Int) (times : List Int) : Prop :=
  ∃ n : Nat, s'.wheel.tick = s.wheel.tick + n ∧ (n : Int) ≤ (times.getLastD first - first) / 1000 ∧
    (times.getLastD first - first) / 1000 - 1 ≤ n

/-- No tick comes before its second is over; the wheel keeps up with the clock as long as what the ticks were late
by, with the time since the last of them, is less than two seconds. -/
theorem keepsUp_iff (h : Calls s (first :: times) s') (hnew : s.wheel.lastTs = 0) (hpos : 0 < first)
    (hmono : (first :: times).IsChain (· ≤ ·)) :
    (KeepsUp s s' first times ↔ Ticker.behind 1000 first first times < 2000) ∧
      ∃ n : Nat, s'.wheel.tick = s.wheel.tick + n ∧ (n : Int) ≤ (times.getLastD first - first) / 1000 := by
  have hticks := h.ticks_first (pos_of_isChain hpos hmono) hnew
  have hle : (Ticker.ticks 1000 first times : Int) ≤ (times.getLastD first - first) / 1000 :=
    Ticker.ticks_le (by decide) hmono
  have hge : (times.getLastD first - first) / 1000 - 1 ≤ (Ticker.ticks 1000 first times : Int) ↔
      Ticker.behind 1000 first first times < 2 * 1000 := Ticker.ticks_ge_iff (by decide)
  refine ⟨⟨?_, fun hbehind => ⟨_, hticks, hle, hge.mpr hbehind⟩⟩, _, hticks, hle⟩
  rintro ⟨n, hn, -, hlow⟩
  obtain rfl := Nat.add_left_cancel (hn.symm.trans hticks)
  exact hge.mp hlow

/-- Three calls, each 400 ms late: three ticks in 4.2 s. -/
theorem keepsUp_iff_late : ∃ s', Calls {} [1, 1401, 2801, 4201] s' ∧ KeepsUp {} s' 1 [1401, 2801, 4201] := by
  obtain ⟨s', h⟩ := sound_empty.calls [1, 1401, 2801, 4201]
  have hmono : [(1 : Int), 1401, 2801, 4201].IsChain (· ≤ ·) := by decide
  exact ⟨s', h, (keepsUp_iff h rfl (by decide) hmono).1.mpr (by decide)⟩

/-- Calls 999 ms apart: the wheel ticks at every second one. -/
theorem Calls.ticks_slow {n : Nat} (h : Calls {} (1 :: Ticker.readings 999 1 (2 * n)) s') : s'.wheel.tick = n := by
  have hmono : (1 :: Ticker.readings 999 1 (2 * n)).IsChain (· ≤ ·) :=
    (Ticker.readings_isChain _).imp fun a b hgap => by omega
  rw [h.ticks_first (pos_of_isChain (by decide) hmono) rfl, Ticker.ticks_readings (by decide) (by decide)]
  exact Nat.zero_add n

/-- Three ticks in almost six seconds. -/
theorem slowCalls_lag : ¬ ∀ s' first times, Calls {} (first :: times) s' → 0 < first →
    (first :: times).IsChain (fun a b => a ≤ b ∧ b ≤ a + 1000) → KeepsUp {} s' first times := by
  intro hkeeps
  obtain ⟨s', h⟩ := sound_empty.calls (1 :: Ticker.readings 999 1 (2 * 3))
  have hchain : (1 :: Ticker.readings 999 1 (2 * 3)).IsChain fun a b => a ≤ b ∧ b ≤ a + 1000 :=
    (Ticker.readings_isChain _).imp fun a b hgap => by omega
  obtain ⟨n, hn, -, hlow⟩ := hkeeps s' 1 _ h (by decide) hchain
  have htick : n = 3 := by
    rw [← h.ticks_slow, hn]
    exact (Nat.zero_add n).symm
  rw [htick, Ticker.readings_last] at hlow
  omega

end Runs

end Timers
end TmmsServer
