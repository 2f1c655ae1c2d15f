import Mathlib.Data.List.Nodup
import Mathlib.Data.List.Perm.Subperm
import Mathlib.Data.Nat.ModEq
import Mathlib.Data.Nat.Prime.Pow
import Mathlib.Logic.Function.Basic
import TmmsServer.Lib.Runs

/-!
# `EventLoopThreadPool`

`GetNextLoop` counts its calls in 32 bits with a sign, and takes the count as a `size_t` for
the remainder. The loops come in turn for good where both wraps fall together with the end
of a round.
-/
namespace TmmsServer
open Lib.Runs

/-- The loops of `threads_`, numbered. -/
structure EventLoopThreadPool where
  threads : List Nat
  loopIndex : Int32 := 0
  deriving DecidableEq

namespace EventLoopThreadPool

/-- The constructor, with what it makes of `thread_num`. -/
def new (threadNum : Int32) : EventLoopThreadPool :=
  let threadNum := if threadNum ≤ 0 then 1 else threadNum
  { threads := List.range threadNum.toInt.toNat }

/-- An `int` as a `size_t`. -/
def sizeT (i : Int32) : Nat := i.toInt64.toUInt64.toNat

def getNextLoop (p : EventLoopThreadPool) : Option Nat × EventLoopThreadPool :=
  (p.threads[sizeT p.loopIndex % p.threads.length]?, { p with loopIndex := p.loopIndex + 1 })

/-- What a number of calls return, and the pool after them. -/
def calls (p : EventLoopThreadPool) : Nat → List (Option Nat) × EventLoopThreadPool
  | 0 => ([], p)
  | n + 1 => (p.getNextLoop.1 :: (p.getNextLoop.2.calls n).1, (p.getNextLoop.2.calls n).2)

variable {p : EventLoopThreadPool}

theorem calls_snd (p : EventLoopThreadPool) (m : Nat) :
    (p.calls m).2 = { p with loopIndex := p.loopIndex + Int32.ofNat m } := by
  induction m generalizing p with
  | zero => simp [calls]
  | succ m ih =>
      rw [calls, ih]
      simp only [getNextLoop, Nat.add_comm m 1, Int32.ofNat_add, Int32.add_assoc]
      rfl

theorem calls_fst (p : EventLoopThreadPool) (n : Nat) :
    (p.calls n).1 =
      (List.range n).map fun j => p.threads[sizeT (p.loopIndex + Int32.ofNat j) % p.threads.length]? := by
  induction n generalizing p with
  | zero => rfl
  | succ n ih =>
      rw [calls, ih, List.range_succ_eq_map, List.map_cons, List.map_map]
      simp only [getNextLoop]
      congr 1
      · simp
      · apply List.map_congr_left
        intro j hj
        rw [Function.comp_apply, Nat.succ_eq_add_one, Nat.add_comm j 1, Int32.ofNat_add, Int32.add_assoc]
        rfl

/-- The count after so many calls, as a `size_t`: the upper half of its range is negative. -/
theorem sizeT_ofNat (m : Nat) :
    sizeT (Int32.ofNat m) = if m % 2 ^ 32 < 2 ^ 31 then m % 2 ^ 32 else m % 2 ^ 32 + (2 ^ 64 - 2 ^ 32) := by
  have hvalue : sizeT (Int32.ofNat m) = ((BitVec.ofNat 32 m).signExtend 64).toNat := rfl
  rw [hvalue, BitVec.toNat_signExtend, BitVec.toNat_setWidth, BitVec.toNat_ofNat, BitVec.msb_eq_decide,
    BitVec.toNat_ofNat]
  have hlt : m % 2 ^ 32 < 2 ^ 32 := Nat.mod_lt _ (by decide)
  rw [Nat.mod_eq_of_lt (Nat.lt_trans hlt (by decide))]
  split
  next hneg => rw [if_neg (by simpa using hneg)]
  next hpos =>
    rw [if_pos (by simpa using hpos)]
    rfl

theorem new_threads (threadNum : Int32) :
    ∃ n, (new threadNum).threads = List.range n ∧ 0 < n ∧ n < 2 ^ 31 := by
  refine ⟨_, rfl, ?_, ?_⟩
  · split
    · decide
    next hpos =>
      have hlt : 0 < threadNum.toInt := Int32.lt_iff_toInt_lt.mp (Int32.not_le.mp hpos)
      omega
  · have hlt := (if threadNum ≤ 0 then 1 else threadNum : Int32).toInt_lt
    omega

theorem round_fst (threadNum : Int32) (m : Nat) {n : Nat} (hn : (new threadNum).threads = List.range n)
    (hpos : 0 < n) :
    (((new threadNum).calls m).2.calls n).1 =
      (List.range n).map fun j => some (sizeT (Int32.ofNat (m + j)) % n) := by
  rw [calls_snd, calls_fst, hn]
  apply List.map_congr_left
  intro j hj
  have hindex : (new threadNum).loopIndex + Int32.ofNat m + Int32.ofNat j = Int32.ofNat (m + j) := by
    rw [Int32.ofNat_add]
    change 0 + Int32.ofNat m + Int32.ofNat j = _
    rw [Int32.zero_add]
  rw [hindex, List.length_range, List.getElem?_range (Nat.mod_lt _ hpos)]

theorem sizeT_mod {n : Nat} (hn : n ∣ 2 ^ 32) (m : Nat) : sizeT (Int32.ofNat m) % n = m % n := by
  have hwrap : m % 2 ^ 32 % n = m % n := Nat.mod_mod_of_dvd m hn
  have hsign : n ∣ 2 ^ 64 - 2 ^ 32 := Nat.dvd_trans hn (by decide)
  rw [sizeT_ofNat]
  split
  · exact hwrap
  · rw [Nat.add_mod, Nat.mod_eq_zero_of_dvd hsign, Nat.add_zero, Nat.mod_mod, hwrap]

theorem range_shift_perm (m : Nat) {n : Nat} (hpos : 0 < n) :
    ((List.range n).map fun j => (m + j) % n).Perm (List.range n) := by
  have hnodup : ((List.range n).map fun j => (m + j) % n).Nodup := by
    refine List.Nodup.map_on (fun i hi j hj heq => ?_) List.nodup_range
    have hmod : i ≡ j [MOD n] := Nat.ModEq.add_left_cancel' m heq
    exact hmod.eq_of_lt_of_lt (List.mem_range.mp hi) (List.mem_range.mp hj)
  have hsubset : ((List.range n).map fun j => (m + j) % n) ⊆ List.range n := by
    intro r hr
    obtain ⟨j, -, rfl⟩ := List.mem_map.mp hr
    exact List.mem_range.mpr (Nat.mod_lt _ hpos)
  exact (hnodup.subperm hsubset).perm_of_length_le (by simp)

/-- As many calls as the pool has loops return each of them once, however many calls came before, if and only if
their number is a power of two. -/
theorem every_round_iff (threadNum : Int32) :
    (∀ m, (((new threadNum).calls m).2.calls (new threadNum).threads.length).1.Perm
        ((new threadNum).threads.map some)) ↔ ∃ k, (new threadNum).threads.length = 2 ^ k := by
  obtain ⟨n, hn, hpos, hmax⟩ := new_threads threadNum
  have hlength : (new threadNum).threads.length = n := by rw [hn, List.length_range]
  simp only [hlength, round_fst threadNum _ hn hpos]
  constructor
  · intro hrounds
    -- the round that begins with the count at -1
    have hlast : some (n - 1) ∈ (new threadNum).threads.map some := by
      rw [hn]
      exact List.mem_map_of_mem (List.mem_range.mpr (by omega))
    obtain ⟨j, hj, heq⟩ := List.mem_map.mp ((hrounds (2 ^ 32 - 1)).mem_iff.mpr hlast)
    have hj' := List.mem_range.mp hj
    have hvalue := Option.some.inj heq
    rw [sizeT_ofNat] at hvalue
    cases j with
    | zero =>
        have hdvd : n ∣ 2 ^ 64 := by
          have hmod : (2 ^ 64 - 1) % n = n - 1 := hvalue
          have hdiv := Nat.div_add_mod (2 ^ 64 - 1) n
          exact ⟨(2 ^ 64 - 1) / n + 1, by rw [Nat.mul_add]; omega⟩
        obtain ⟨k, -, hk⟩ := (Nat.dvd_prime_pow Nat.prime_two).mp hdvd
        exact ⟨k, hk⟩
    | succ j =>
        have hwrapped : (2 ^ 32 - 1 + (j + 1)) % 2 ^ 32 = j := by omega
        rw [hwrapped, if_pos (by omega), Nat.mod_eq_of_lt (by omega)] at hvalue
        omega
  · rintro ⟨k, hk⟩ m
    have hdvd : n ∣ 2 ^ 32 := by
      rw [hk]
      have hlt : 2 ^ k < 2 ^ 31 := hk ▸ hmax
      exact Nat.pow_dvd_pow 2 (by have := (Nat.pow_lt_pow_iff_right (by decide)).mp hlt; omega)
    have hround : ((List.range n).map fun j => some (sizeT (Int32.ofNat (m + j)) % n)) =
        ((List.range n).map fun j => (m + j) % n).map some := by
      rw [List.map_map]
      apply List.map_congr_left
      intro j hj
      rw [Function.comp_apply, sizeT_mod hdvd]
    rw [hround, hn]
    exact (range_shift_perm m hpos).map some

end EventLoopThreadPool

/-! ### Callers on several threads -/

/-- `GetNextLoop` reads `loop_index_` and counts it up, each atomically. -/
inductive PoolAction where
  | read (caller : Nat)
  | increment (caller : Nat)
  deriving DecidableEq, Repr

/-- A pool with the `index` of each caller in `GetNextLoop`, and what the calls returned. -/
structure PoolCalls where
  pool : EventLoopThreadPool
  index : Nat → Option Int32 := fun _ => none
  returned : List (Option Nat) := []

namespace PoolCalls
open EventLoopThreadPool

def step (s : PoolCalls) : PoolAction → Option PoolCalls
  | .read c =>
      if s.index c = none then some { s with index := Function.update s.index c (some s.pool.loopIndex) } else none
  | .increment c =>
      (s.index c).map fun i => {
        pool := { s.pool with loopIndex := s.pool.loopIndex + 1 }
        index := Function.update s.index c none
        returned := s.returned ++ [s.pool.threads[sizeT i % s.pool.threads.length]?] }

/-- What every run keeps. -/
structure Sound (first : EventLoopThreadPool) (s : PoolCalls) : Prop where
  threads : s.pool.threads = first.threads
  count : s.pool.loopIndex = first.loopIndex + Int32.ofNat s.returned.length
  member : ∀ loop ∈ s.returned, ∃ l ∈ first.threads, loop = some l

variable {first : EventLoopThreadPool} {s s' : PoolCalls}

theorem Sound.step (h : s.Sound first) (hpos : 0 < first.threads.length) {a : PoolAction}
    (hstep : s.step a = some s') : s'.Sound first := by
  cases a with
  | read c =>
      obtain ⟨-, hstep⟩ := Option.ite_none_right_eq_some.mp hstep
      cases hstep
      exact ⟨h.threads, h.count, h.member⟩
  | increment c =>
      obtain ⟨i, -, rfl⟩ := Option.map_eq_some_iff.mp hstep
      refine ⟨h.threads, ?_, fun loop hloop => ?_⟩
      · rw [List.length_append, Int32.ofNat_add, ← Int32.add_assoc, ← h.count]
        rfl
      · rcases List.mem_append.mp hloop with hold | hnew
        · exact h.member loop hold
        · obtain rfl := List.mem_singleton.mp hnew
          rw [h.threads]
          have hlt := Nat.mod_lt (sizeT i) hpos
          exact ⟨_, List.getElem_mem hlt, List.getElem?_eq_getElem hlt⟩

/-- All of the callers read before one of them counts. -/
theorem run_reads (s : PoolCalls) (callers : List Nat) (hnodup : callers.Nodup)
    (hnone : ∀ c ∈ callers, s.index c = none) :
    run step s (callers.map .read) =
      some { s with index := fun c => if c ∈ callers then some s.pool.loopIndex else s.index c } := by
  induction callers generalizing s with
  | nil => simp
  | cons c callers ih =>
      obtain ⟨hnot, hrest⟩ := List.nodup_cons.mp hnodup
      have hread : s.step (.read c) =
          some { s with index := Function.update s.index c (some s.pool.loopIndex) } :=
        if_pos (hnone c List.mem_cons_self)
      have hfree : ∀ d ∈ callers, Function.update s.index c (some s.pool.loopIndex) d = none := fun d hd => by
        have hne : d ≠ c := fun heq => hnot (heq ▸ hd)
        rw [Function.update_of_ne hne]
        exact hnone d (List.mem_cons_of_mem c hd)
      refine run_cons_iff.mpr ⟨_, hread, (ih _ hrest hfree).trans ?_⟩
      congr 2
      funext d
      by_cases hdc : d = c
      · subst hdc
        simp
      · simp [hdc]

/-- They get the same loop. -/
theorem run_increments (s : PoolCalls) (i : Int32) (callers : List Nat) (hnodup : callers.Nodup)
    (hindex : ∀ c, s.index c = if c ∈ callers then some i else none) :
    run step s (callers.map .increment) = some {
      pool := { s.pool with loopIndex := s.pool.loopIndex + Int32.ofNat callers.length }
      index := fun _ => none
      returned := s.returned ++
        List.replicate callers.length s.pool.threads[sizeT i % s.pool.threads.length]? } := by
  induction callers generalizing s with
  | nil =>
      have hnone : s.index = fun _ => none := by
        funext c
        simpa using hindex c
      simp [← hnone]
  | cons c callers ih =>
      obtain ⟨hnot, hrest⟩ := List.nodup_cons.mp hnodup
      have hstep : s.step (.increment c) = some {
          pool := { s.pool with loopIndex := s.pool.loopIndex + 1 }
          index := Function.update s.index c none
          returned := s.returned ++ [s.pool.threads[sizeT i % s.pool.threads.length]?] } := by
        rw [step, hindex c, if_pos List.mem_cons_self]
        rfl
      refine run_cons_iff.mpr ⟨_, hstep, (ih _ hrest fun d => ?_).trans ?_⟩
      · by_cases hdc : d = c
        · subst hdc
          simp [hnot]
        · simp [hdc, hindex d]
      · have hone : Int32.ofNat (callers.length + 1) = 1 + Int32.ofNat callers.length := by
          rw [Nat.add_comm, Int32.ofNat_add]
          rfl
        simp only [List.length_cons, List.replicate_succ, List.append_assoc, List.singleton_append, hone,
          Int32.add_assoc]

/-- As many callers as there are loops, in step. -/
def round (n : Nat) : List PoolAction := (List.range n).map .read ++ (List.range n).map .increment

theorem run_round (s : PoolCalls) (n : Nat) (hnone : s.index = fun _ => none) :
    run step s (round n) = some {
      pool := { s.pool with loopIndex := s.pool.loopIndex + Int32.ofNat n }
      index := fun _ => none
      returned := s.returned ++
        List.replicate n s.pool.threads[sizeT s.pool.loopIndex % s.pool.threads.length]? } := by
  have hreads := run_reads s (List.range n) List.nodup_range fun c _ => by rw [hnone]
  have hincrements := run_increments
    { s with index := fun c => if c ∈ List.range n then some s.pool.loopIndex else s.index c } s.pool.loopIndex
    (List.range n) List.nodup_range fun c => by rw [hnone]
  rw [List.length_range] at hincrements
  exact run_trans hreads hincrements

theorem run_rounds (p : EventLoopThreadPool) (n rounds : Nat) :
    run step { pool := p } (List.replicate rounds (round n)).flatten = some {
      pool := { p with loopIndex := p.loopIndex + Int32.ofNat (rounds * n) }
      returned := (List.range rounds).flatMap fun r =>
        List.replicate n p.threads[sizeT (p.loopIndex + Int32.ofNat (r * n)) % p.threads.length]? } := by
  induction rounds with
  | zero => simp
  | succ rounds ih =>
      rw [List.replicate_succ', List.flatten_append, List.flatten_singleton]
      refine (run_trans ih (run_round _ n rfl)).trans ?_
      simp only [List.range_succ, List.flatMap_append, List.flatMap_singleton, Nat.succ_mul, Int32.ofNat_add,
        Int32.add_assoc]

/-- In every interleaving of any number of callers each call returns a loop of the pool, and `loop_index_` is the
number of calls that have returned. But as many callers as there are loops, in step, are all given the same loop in
every round, for any number of rounds. -/
theorem callers_in_step (threadNum : Int32) :
    (∀ actions s, run step { pool := new threadNum } actions = some s →
        s.pool.loopIndex = Int32.ofNat s.returned.length ∧
          ∀ loop ∈ s.returned, ∃ l ∈ (new threadNum).threads, loop = some l) ∧
      ∀ rounds, ∃ actions s, run step { pool := new threadNum } actions = some s ∧
        s.returned = (List.range rounds).flatMap fun r => List.replicate (new threadNum).threads.length
          (some (sizeT (Int32.ofNat (r * (new threadNum).threads.length)) % (new threadNum).threads.length)) := by
  obtain ⟨n, hn, hpos, -⟩ := new_threads threadNum
  have hlength : (new threadNum).threads.length = n := by rw [hn, List.length_range]
  have hfirst : (new threadNum).loopIndex = 0 := rfl
  constructor
  · intro actions s h
    have hsound : s.Sound (new threadNum) :=
      run_invariant (fun _ _ _ hkept hstep => hkept.step (hlength ▸ hpos) hstep)
        ⟨rfl, by simp, fun loop hloop => absurd hloop List.not_mem_nil⟩ h
    refine ⟨?_, hsound.member⟩
    rw [hsound.count, hfirst, Int32.zero_add]
  · intro rounds
    refine ⟨_, _, run_rounds (new threadNum) n rounds, ?_⟩
    simp only [hlength, hfirst, Int32.zero_add]
    congr 1
    funext r
    rw [hn, List.getElem?_range (Nat.mod_lt _ hpos)]

/-- Two callers on a pool of two loops: the second loop is never returned. -/
theorem callers_in_step_two : ∃ actions s, run step { pool := new 2 } actions = some s ∧
    s.returned = [some 0, some 0, some 0, some 0, some 0, some 0] := by
  obtain ⟨actions, s, hs, hreturned⟩ := (callers_in_step 2).2 3
  exact ⟨actions, s, hs, hreturned.trans (by decide)⟩

end PoolCalls
end TmmsServer
