import Mathlib.Data.List.Basic

/-!
# Resumable readers of a byte stream

A reader attempts to take one item from the front of its unread input. When the
input is too short it may already have noted something in its state; a later
attempt starts again from the first unread element. The laws below say that such
notes do no harm, and the main theorem that deliveries may be cut anywhere.
`N` bounds the length of the unread input up to which the laws hold.
-/
namespace Lib.Feed

variable {σ α β ε : Type}

/-- One attempt on the unread input: wait for more, take `n` elements, or fail. -/
inductive Attempt (σ β ε : Type) where
  | wait (s : σ)
  | take (s : σ) (n : Nat) (out : List β)
  | fail (e : ε)

/-- What reading came to: the items delivered, then the state and the unread rest, or a failure. -/
structure Reading (σ α β ε : Type) where
  out : List β
  fin : Except ε (σ × List α)

def Reading.prepend (out : List β) (r : Reading σ α β ε) : Reading σ α β ε :=
  { r with out := out ++ r.out }

/-- Continue a reading from where it stopped. -/
def Reading.andThen (r : Reading σ α β ε) (k : σ → List α → Reading σ α β ε) : Reading σ α β ε :=
  match r.fin with
  | .ok (s, u) => (k s u).prepend r.out
  | .error _ => r

@[simp] theorem prepend_nil (r : Reading σ α β ε) : r.prepend [] = r := rfl

theorem prepend_prepend (a b : List β) (r : Reading σ α β ε) :
    (r.prepend b).prepend a = r.prepend (a ++ b) := by
  simp only [Reading.prepend, List.append_assoc]

theorem prepend_andThen (a : List β) (r : Reading σ α β ε) (k : σ → List α → Reading σ α β ε) :
    (r.prepend a).andThen k = (r.andThen k).prepend a := by
  obtain ⟨out, fin⟩ := r
  cases fin with
  | error e => rfl
  | ok p => exact (prepend_prepend a out (k p.1 p.2)).symm

theorem out_prefix_andThen (r : Reading σ α β ε) (k : σ → List α → Reading σ α β ε) :
    r.out <+: (r.andThen k).out := by
  obtain ⟨out, fin⟩ := r
  cases fin with
  | error e => exact List.prefix_refl out
  | ok p => exact List.prefix_append out _

theorem fin_andThen {r : Reading σ α β ε} {k : σ → List α → Reading σ α β ε} {s : σ} {u : List α}
    (h : r.fin = .ok (s, u)) : (r.andThen k).fin = (k s u).fin := by
  unfold Reading.andThen
  rw [h]
  rfl

theorem andThen_assoc (r : Reading σ α β ε) (k k' : σ → List α → Reading σ α β ε) :
    (r.andThen k).andThen k' = r.andThen fun s u => (k s u).andThen k' := by
  obtain ⟨out, fin⟩ := r
  cases fin with
  | error e => rfl
  | ok p => exact prepend_andThen out (k p.1 p.2) k'

theorem andThen_congr {r : Reading σ α β ε} {k k' : σ → List α → Reading σ α β ε}
    (h : ∀ s u, r.fin = .ok (s, u) → k s u = k' s u) : r.andThen k = r.andThen k' := by
  obtain ⟨out, fin⟩ := r
  cases fin with
  | error e => rfl
  | ok p => exact congrArg (Reading.prepend out) (h p.1 p.2 rfl)

/-- Attempts until one waits or fails; `fuel` bounds their number. -/
def drainFuel (step : σ → List α → Attempt σ β ε) : Nat → σ → List α → Reading σ α β ε
  | 0, s, u => ⟨[], .ok (s, u)⟩
  | fuel + 1, s, u =>
      match step s u with
      | .wait s' => ⟨[], .ok (s', u)⟩
      | .take s' n out => (drainFuel step fuel s' (u.drop n)).prepend out
      | .fail e => ⟨[], .error e⟩

/-- Read everything that can be read from `u`. -/
def drain (step : σ → List α → Attempt σ β ε) (s : σ) (u : List α) : Reading σ α β ε :=
  drainFuel step (u.length + 1) s u

/-- Append the deliveries one after another, reading after each. -/
def feed (read : σ → List α → Reading σ α β ε) : σ → List α → List (List α) → Reading σ α β ε
  | s, u, [] => ⟨[], .ok (s, u)⟩
  | s, u, piece :: pieces => (read s (u ++ piece)).andThen fun s' u' => feed read s' u' pieces

theorem drain_wait {step : σ → List α → Attempt σ β ε} {s s' : σ} {u : List α}
    (hs : step s u = .wait s') : drain step s u = ⟨[], .ok (s', u)⟩ := by
  simp only [drain, drainFuel, hs]

theorem drain_fail {step : σ → List α → Attempt σ β ε} {s : σ} {u : List α} {e : ε}
    (hs : step s u = .fail e) : drain step s u = ⟨[], .error e⟩ := by
  simp only [drain, drainFuel, hs]

/-- At each call the unread input, the new delivery included, has at most `N` elements. -/
def Fits (read : σ → List α → Reading σ α β ε) (N : Nat) : σ → List α → List (List α) → Prop
  | _, _, [] => True
  | s, u, piece :: pieces => (u ++ piece).length ≤ N ∧
      ∀ s' u', (read s (u ++ piece)).fin = .ok (s', u') → Fits read N s' u' pieces

/-- Readers that agree on inputs in range feed alike. -/
theorem feed_congr {read read' : σ → List α → Reading σ α β ε} {N : Nat}
    (hr : ∀ s (u : List α), u.length ≤ N → read s u = read' s u) {s : σ} {u : List α}
    {pieces : List (List α)} (hfit : Fits read N s u pieces) :
    feed read s u pieces = feed read' s u pieces ∧ Fits read' N s u pieces := by
  induction pieces generalizing s u with
  | nil => exact ⟨rfl, trivial⟩
  | cons piece pieces ih =>
      obtain ⟨hN, hrest⟩ := hfit
      have hpiece := hr s (u ++ piece) hN
      constructor
      · rw [feed, feed, ← hpiece]
        exact andThen_congr fun s' u' hd => (ih (hrest s' u' hd)).1
      · refine ⟨hN, fun s' u' hd => (ih (hrest s' u' ?_)).2⟩
        rw [hpiece, hd]

theorem feed_append (read : σ → List α → Reading σ α β ε) (s : σ) (u : List α)
    (pieces rest : List (List α)) : feed read s u (pieces ++ rest) =
      (feed read s u pieces).andThen fun s' u' => feed read s' u' rest := by
  induction pieces generalizing s u with
  | nil => rfl
  | cons piece pieces ih =>
      rw [List.cons_append, feed, feed, andThen_assoc]
      exact andThen_congr fun s' u' _ => ih s' u'

theorem Fits.append {read : σ → List α → Reading σ α β ε} {N : Nat} {s : σ} {u : List α}
    {pieces rest : List (List α)} (hfit : Fits read N s u pieces)
    (hrest : ∀ s' u', (feed read s u pieces).fin = .ok (s', u') → Fits read N s' u' rest) :
    Fits read N s u (pieces ++ rest) := by
  induction pieces generalizing s u with
  | nil => exact hrest s u rfl
  | cons piece pieces ih =>
      refine ⟨hfit.1, fun s₁ u₁ hd => ih (hfit.2 s₁ u₁ hd) fun s' u' hfin => hrest s' u' ?_⟩
      rw [feed, fin_andThen hd, hfin]

/-- The laws of a resumable reader on inputs of at most `N` elements. -/
structure Resumable (step : σ → List α → Attempt σ β ε) (N : Nat) : Prop where
  empty_wait : ∀ s, step s [] = .wait s
  take_pos : ∀ {s u s' n out}, u.length ≤ N → step s u = .take s' n out → 0 < n ∧ n ≤ u.length
  take_append : ∀ {s u v s' n out}, (u ++ v).length ≤ N →
    step s u = .take s' n out → step s (u ++ v) = .take s' n out
  fail_append : ∀ {s u v e}, (u ++ v).length ≤ N → step s u = .fail e → step s (u ++ v) = .fail e
  wait_append : ∀ {s u v s'}, (u ++ v).length ≤ N →
    step s u = .wait s' → step s' (u ++ v) = step s (u ++ v)

/-- The input is a row of items, each taken as a whole. -/
inductive Takes (step : σ → List α → Attempt σ β ε) (N : Nat) : σ → List α → σ → List β → Prop
  | nil (s : σ) : Takes step N s [] s []
  | cons {s s₁ s₂ : σ} {c u : List α} {o os : List β} : c.length ≤ N →
      step s c = .take s₁ c.length o → Takes step N s₁ u s₂ os → Takes step N s (c ++ u) s₂ (o ++ os)

theorem Takes.one {step : σ → List α → Attempt σ β ε} {N : Nat} {s s' : σ} {c : List α} {o : List β}
    (hN : c.length ≤ N) (hs : step s c = .take s' c.length o) : Takes step N s c s' o := by
  have h := Takes.cons hN hs (Takes.nil s')
  rwa [List.append_nil, List.append_nil] at h

theorem Takes.tight {step : σ → List α → Attempt σ β ε} {N M : Nat} {s s' : σ} {u : List α} {out : List β}
    (h : Takes step N s u s' out) (hM : u.length ≤ M) : Takes step M s u s' out := by
  induction h with
  | nil s => exact .nil s
  | cons _ hs _ ih =>
      rw [List.length_append] at hM
      exact .cons (Nat.le_trans (Nat.le_add_right _ _) hM) hs (ih (Nat.le_trans (Nat.le_add_left _ _) hM))

theorem Takes.append {step : σ → List α → Attempt σ β ε} {N : Nat} {s s₁ s₂ : σ} {u v : List α}
    {os os' : List β} (h : Takes step N s u s₁ os) (h' : Takes step N s₁ v s₂ os') :
    Takes step N s (u ++ v) s₂ (os ++ os') := by
  induction h with
  | nil s => exact h'
  | cons hN hs _ ih =>
      rw [List.append_assoc, List.append_assoc]
      exact .cons hN hs (ih h')

section Laws
variable {step : σ → List α → Attempt σ β ε} {N : Nat} (h : Resumable step N)
include h

/-- Any fuel above the length of the input gives the same reading. -/
theorem drainFuel_eq_drain {fuel : Nat} {s : σ} {u : List α} (hN : u.length ≤ N)
    (hf : u.length < fuel) : drainFuel step fuel s u = drain step s u := by
  suffices ∀ fuel fuel' s (u : List α), u.length ≤ N → u.length < fuel → u.length < fuel' →
      drainFuel step fuel s u = drainFuel step fuel' s u from
    this _ _ s u hN hf (Nat.lt_succ_self _)
  intro fuel
  induction fuel with
  | zero => intro fuel' s u _ hlt; exact absurd hlt (Nat.not_lt_zero _)
  | succ fuel ih =>
      intro fuel' s u hN hlt hlt'
      cases fuel' with
      | zero => exact absurd hlt' (Nat.not_lt_zero _)
      | succ fuel' =>
          simp only [drainFuel]
          cases hs : step s u with
          | wait s' => rfl
          | fail e => rfl
          | take s' n out =>
              obtain ⟨hpos, hle⟩ := h.take_pos hN hs
              have hlen : (u.drop n).length < u.length := by rw [List.length_drop]; omega
              exact congrArg (Reading.prepend out)
                (ih fuel' s' (u.drop n) (by omega) (by omega) (by omega))

theorem drain_take {s s' : σ} {u : List α} {n : Nat} {out : List β} (hN : u.length ≤ N)
    (hs : step s u = .take s' n out) :
    drain step s u = (drain step s' (u.drop n)).prepend out := by
  obtain ⟨hpos, hle⟩ := h.take_pos hN hs
  have hlen : (u.drop n).length < u.length := by rw [List.length_drop]; omega
  rw [← drainFuel_eq_drain h (by omega) hlen]
  simp only [drain, drainFuel, hs]

/-- Reading a first part and going on with the rest is reading the whole. -/
theorem drain_append {s : σ} {u v : List α} (hN : (u ++ v).length ≤ N) :
    drain step s (u ++ v) = (drain step s u).andThen fun s' u' => drain step s' (u' ++ v) := by
  induction hn : u.length using Nat.strongRecOn generalizing s u with
  | ind k ih =>
      have hu : u.length ≤ N := by rw [List.length_append] at hN; omega
      cases hs : step s u with
      | wait s' =>
          rw [drain_wait hs]
          simp only [Reading.andThen, prepend_nil, drain, drainFuel, h.wait_append hN hs]
      | fail e =>
          rw [drain_fail hs, drain_fail (h.fail_append hN hs)]
          rfl
      | take s' n out =>
          obtain ⟨hpos, hle⟩ := h.take_pos hu hs
          have hdrop : (u ++ v).drop n = u.drop n ++ v := List.drop_append_of_le_length hle
          have hlen : (u.drop n).length < k := by rw [List.length_drop]; omega
          rw [drain_take h hN (h.take_append hN hs), drain_take h hu hs, prepend_andThen, hdrop]
          rw [ih _ hlen (by simp only [List.length_append, List.length_drop] at hN ⊢; omega) rfl]

/-- Where reading stops, the rest is no longer than the input and another attempt changes nothing. -/
theorem drain_settled {s s' : σ} {u u' : List α} (hN : u.length ≤ N)
    (hd : (drain step s u).fin = .ok (s', u')) : u'.length ≤ u.length ∧ step s' u' = .wait s' := by
  induction hn : u.length using Nat.strongRecOn generalizing s u with
  | ind k ih =>
      cases hs : step s u with
      | wait s₁ =>
          rw [drain_wait hs] at hd
          obtain ⟨rfl, rfl⟩ := Prod.mk.inj (Except.ok.inj hd)
          have hagain := h.wait_append (v := []) (by simpa using hN) hs
          simp only [List.append_nil] at hagain
          exact ⟨by omega, hagain.trans hs⟩
      | fail e => rw [drain_fail hs] at hd; cases hd
      | take s₁ n out =>
          obtain ⟨hpos, hle⟩ := h.take_pos hN hs
          rw [drain_take h hN hs] at hd
          have hlen : (u.drop n).length < k := by rw [List.length_drop]; omega
          obtain ⟨hle', hw⟩ := ih _ hlen (by omega) hd rfl
          exact ⟨by omega, hw⟩

/-- Segmentation independence: deliveries cut anywhere read like one delivery. -/
theorem feed_eq_drain {s : σ} {u : List α} {pieces : List (List α)} (hne : pieces ≠ [])
    (hN : (u ++ pieces.flatten).length ≤ N) :
    feed (drain step) s u pieces = drain step s (u ++ pieces.flatten) := by
  induction pieces generalizing s u with
  | nil => exact absurd rfl hne
  | cons piece pieces ih =>
      have hassoc : u ++ (piece :: pieces).flatten = (u ++ piece) ++ pieces.flatten := by simp
      rw [hassoc] at hN ⊢
      rw [drain_append h hN, feed]
      refine andThen_congr fun s' u' hd => ?_
      have hup : (u ++ piece).length ≤ N := by rw [List.length_append] at hN; omega
      obtain ⟨hu', hw⟩ := drain_settled h hup hd
      by_cases hp : pieces = []
      · subst hp
        simpa only [feed, List.flatten_nil, List.append_nil] using (drain_wait hw).symm
      · exact ih hp (by simp only [List.length_append] at hN hu' ⊢; omega)

theorem fits_of_length {s : σ} {u : List α} {pieces : List (List α)}
    (hN : (u ++ pieces.flatten).length ≤ N) : Fits (drain step) N s u pieces := by
  induction pieces generalizing s u with
  | nil => trivial
  | cons piece pieces ih =>
      have hassoc : u ++ (piece :: pieces).flatten = (u ++ piece) ++ pieces.flatten := by simp
      rw [hassoc] at hN
      have hup : (u ++ piece).length ≤ N := by rw [List.length_append] at hN; omega
      refine ⟨hup, fun s' u' hd => ih ?_⟩
      have hu' := (drain_settled h hup hd).1
      simp only [List.length_append] at hN hu' ⊢
      omega

/-- Reading a part of a row of items leaves a row of the remaining ones, which are no longer. -/
theorem drain_takes_within {M : Nat} (hM : M ≤ N) {s s' : σ} {u v : List α} {out : List β} (hN : u.length ≤ N)
    (ht : Takes step M s (u ++ v) s' out) :
    ∃ s₁ u₁ out₁ out₂, drain step s u = ⟨out₁, .ok (s₁, u₁)⟩ ∧
      Takes step M s₁ (u₁ ++ v) s' out₂ ∧ out = out₁ ++ out₂ := by
  induction hn : u.length using Nat.strongRecOn generalizing s u out with
  | ind k ih =>
      generalize hw : u ++ v = w at ht
      cases ht with
      | nil =>
          obtain ⟨rfl, rfl⟩ := List.append_eq_nil_iff.mp hw
          exact ⟨_, [], [], [], drain_wait (h.empty_wait _), .nil _, rfl⟩
      | cons hc hs hrest =>
          rename_i s₁ c rest o os
          have hcN := Nat.le_trans hc hM
          rcases List.append_eq_append_iff.mp hw with ⟨x, rfl, rfl⟩ | ⟨x, rfl, rfl⟩
          · -- the delivery ends inside the item `u ++ x`, or exactly at its end
            cases hu : step s u with
            | wait s₂ =>
                refine ⟨s₂, u, [], o ++ os, drain_wait hu, ?_, rfl⟩
                rw [← List.append_assoc]
                exact .cons hc ((h.wait_append hcN hu).trans hs) hrest
            | fail e => rw [h.fail_append hcN hu] at hs; cases hs
            | take s₂ n out =>
                obtain ⟨hpos, hle⟩ := h.take_pos hN hu
                rw [h.take_append hcN hu] at hs
                obtain ⟨rfl, hlen, rfl⟩ := Attempt.take.inj hs
                obtain rfl : x = [] := List.length_eq_zero_iff.mp (by
                  rw [List.length_append] at hlen; omega)
                have hdrop : u.drop n = [] :=
                  List.drop_eq_nil_of_le (by simp only [List.append_nil] at hlen; omega)
                refine ⟨s₂, [], out, os, ?_, hrest, rfl⟩
                rw [drain_take h hN hu, hdrop, drain_wait (h.empty_wait s₂)]
                simp only [Reading.prepend, List.append_nil]
          · -- the item is complete in the delivery
            have htake := h.take_append (v := x) hN hs
            have hdrop : (c ++ x).drop c.length = x := List.drop_left
            have hpos := (h.take_pos hcN hs).1
            have hlen : x.length < k := by rw [← hn, List.length_append]; omega
            have hx : x.length ≤ N := by rw [List.length_append] at hN; omega
            obtain ⟨s₂, u₂, out₁, out₂, hd, ht, rfl⟩ := ih _ hlen hx hrest rfl
            refine ⟨s₂, u₂, o ++ out₁, out₂, ?_, ht, (List.append_assoc _ _ _).symm⟩
            rw [drain_take h hN htake, hdrop, hd]
            rfl

theorem drain_takes {s s' : σ} {u v : List α} {out : List β} (hN : u.length ≤ N)
    (ht : Takes step N s (u ++ v) s' out) :
    ∃ s₁ u₁ out₁ out₂, drain step s u = ⟨out₁, .ok (s₁, u₁)⟩ ∧
      Takes step N s₁ (u₁ ++ v) s' out₂ ∧ out = out₁ ++ out₂ :=
  drain_takes_within h (Nat.le_refl N) hN ht

/-- Where a reader waits in front of a row of items, it has not got the whole of the first. -/
theorem Takes.waiting {M : Nat} {s s₁ s' : σ} {u v : List α} {out : List β} (hN : u.length ≤ N)
    (hw : step s u = .wait s₁) (ht : Takes step M s (u ++ v) s' out) :
    u.length ≤ M ∧ (v = [] → u = [] ∧ out = [] ∧ s' = s) := by
  generalize hrow : u ++ v = w at ht
  cases ht with
  | nil =>
      obtain ⟨rfl, rfl⟩ := List.append_eq_nil_iff.mp hrow
      exact ⟨Nat.zero_le M, fun _ => ⟨rfl, rfl, rfl⟩⟩
  | cons hc hs _ =>
      rcases List.append_eq_append_iff.mp hrow with ⟨x, rfl, rfl⟩ | ⟨x, rfl, rfl⟩
      · rw [List.length_append] at hc
        refine ⟨Nat.le_trans (Nat.le_add_right _ _) hc, fun hnil => ?_⟩
        obtain ⟨rfl, -⟩ := List.append_eq_nil_iff.mp hnil
        rw [List.append_nil] at hs
        cases hw.symm.trans hs
      · cases hw.symm.trans (h.take_append hN hs)

/-- A row of items fed in deliveries is taken item by item, and nothing is left. -/
theorem feed_takes {s s' : σ} {u : List α} {pieces : List (List α)} {out : List β}
    (hN : u.length ≤ N) (hu : step s u = .wait s) (hfit : Fits (drain step) N s u pieces)
    (ht : Takes step N s (u ++ pieces.flatten) s' out) :
    feed (drain step) s u pieces = ⟨out, .ok (s', [])⟩ := by
  induction pieces generalizing s u out with
  | nil =>
      generalize hw : u ++ [].flatten = w at ht
      rw [List.flatten_nil, List.append_nil] at hw
      cases ht with
      | nil => rw [hw]; rfl
      | cons hc hs hrest =>
          subst hw
          cases (h.take_append hN hs).symm.trans hu
  | cons piece pieces ih =>
      have hassoc : u ++ (piece :: pieces).flatten = (u ++ piece) ++ pieces.flatten := by simp
      rw [hassoc] at ht
      obtain ⟨s₁, u₁, out₁, out₂, hd, ht', rfl⟩ := drain_takes h hfit.1 ht
      have hfin : (drain step s (u ++ piece)).fin = .ok (s₁, u₁) := by rw [hd]
      obtain ⟨hle, hw⟩ := drain_settled h hfit.1 hfin
      have hrest := ih (Nat.le_trans hle hfit.1) hw (hfit.2 s₁ u₁ hfin) ht'
      rw [feed, hd]
      simp only [Reading.andThen, hrest, Reading.prepend]

/-- A row of items can be delivered item by item. -/
theorem Takes.pieces {s s' : σ} {u : List α} {out : List β} (ht : Takes step N s u s' out) :
    ∃ pieces, pieces.flatten = u ∧ Fits (drain step) N s [] pieces ∧
      feed (drain step) s [] pieces = ⟨out, .ok (s', [])⟩ := by
  induction ht with
  | nil s => exact ⟨[], rfl, trivial, rfl⟩
  | @cons s s₁ s₂ c u o os hc hs _ ih =>
      obtain ⟨pieces, hflat, hfit, hfeed⟩ := ih
      have hdrain : drain step s ([] ++ c) = ⟨o, .ok (s₁, [])⟩ := by
        rw [List.nil_append, drain_take h hc hs, List.drop_length, drain_wait (h.empty_wait s₁)]
        simp only [Reading.prepend, List.append_nil]
      refine ⟨c :: pieces, by rw [List.flatten_cons, hflat], ⟨hc, fun s' u' hd => ?_⟩, ?_⟩
      · rw [hdrain] at hd
        obtain ⟨rfl, rfl⟩ := Prod.mk.inj (Except.ok.inj hd)
        exact hfit
      · rw [feed, hdrain]
        simp only [Reading.andThen, hfeed, Reading.prepend]

end Laws

/-! ## Notes of a reader -/

section Notes
variable {γ : Type}

/-- What is taken, as one item with a note. -/
def Attempt.note (x : γ) : Attempt σ β ε → Attempt σ (γ × List β) ε
  | .wait s => .wait s
  | .take s n out => .take s n [(x, out)]
  | .fail e => .fail e

/-- A reader that notes something of its state and its input with everything it takes. -/
def noted (f : σ → List α → γ) (step : σ → List α → Attempt σ β ε) (s : σ) (u : List α) :
    Attempt σ (γ × List β) ε :=
  (step s u).note (f s u)

def Reading.erase (r : Reading σ α (γ × List β) ε) : Reading σ α β ε :=
  ⟨r.out.flatMap Prod.snd, r.fin⟩

variable {f : σ → List α → γ} {step : σ → List α → Attempt σ β ε} {N : Nat}

theorem drainFuel_noted (fuel : Nat) (s : σ) (u : List α) :
    (drainFuel (noted f step) fuel s u).erase = drainFuel step fuel s u := by
  induction fuel generalizing s u with
  | zero => rfl
  | succ fuel ih =>
      unfold drainFuel
      rw [noted]
      cases hs : step s u with
      | wait s' => rfl
      | fail e => rfl
      | take s' n out => exact congrArg (Reading.prepend out) (ih s' (u.drop n))

/-- Reading with notes is reading. -/
theorem drain_noted (s : σ) (u : List α) : (drain (noted f step) s u).erase = drain step s u :=
  drainFuel_noted _ s u

/-- Where the notes do not change with what arrives later, nor by waiting, noting does no harm. -/
theorem Resumable.noted (h : Resumable step N)
    (htake : ∀ {s u v s' n out}, (u ++ v).length ≤ N → step s u = .take s' n out → f s (u ++ v) = f s u)
    (hwait : ∀ {s u v s'}, (u ++ v).length ≤ N → step s u = .wait s' → f s' (u ++ v) = f s (u ++ v)) :
    Resumable (noted f step) N where
  empty_wait s := by
    unfold Feed.noted
    rw [h.empty_wait s]
    rfl
  take_pos := by
    intro s u s' n out hN hs
    unfold Feed.noted at hs
    cases hu : step s u with
    | wait s₁ => rw [hu] at hs; cases hs
    | fail e => rw [hu] at hs; cases hs
    | take s₁ m items =>
        rw [hu] at hs
        obtain ⟨-, rfl, -⟩ := Attempt.take.inj hs
        exact h.take_pos hN hu
  take_append := by
    intro s u v s' n out hN hs
    unfold Feed.noted at hs ⊢
    cases hu : step s u with
    | wait s₁ => rw [hu] at hs; cases hs
    | fail e => rw [hu] at hs; cases hs
    | take s₁ m items =>
        rw [h.take_append hN hu, htake hN hu, ← hs, hu]
  fail_append := by
    intro s u v e hN hs
    unfold Feed.noted at hs ⊢
    cases hu : step s u with
    | wait s₁ => rw [hu] at hs; cases hs
    | take s₁ m items => rw [hu] at hs; cases hs
    | fail e₁ =>
        rw [h.fail_append hN hu, ← hs, hu]
        rfl
  wait_append := by
    intro s u v s' hN hs
    unfold Feed.noted at hs ⊢
    cases hu : step s u with
    | fail e => rw [hu] at hs; cases hs
    | take s₁ m items => rw [hu] at hs; cases hs
    | wait s₁ =>
        rw [hu] at hs
        obtain rfl := Attempt.wait.inj hs
        rw [h.wait_append hN hu, hwait hN hu]

end Notes
end Lib.Feed
