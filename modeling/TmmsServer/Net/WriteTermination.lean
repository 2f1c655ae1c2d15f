import Mathlib.Data.Stream.Init
import TmmsServer.Lib.Loop
import TmmsServer.Net.TcpOutput

/-!
# Whether `OnWrite` returns

`OnWrite` pass by pass, on results of `writev` that never end. It takes whole vectors
off the list only while there are bytes to account for, so an empty one at the end
stays.
-/
namespace TmmsServer
open Lib Lib.Gather

/-- `OnWrite` inside its loop: what was accepted so far, and how often `writev` was called. -/
structure Writing (α : Type) where
  conn : TcpConnection α
  accepted : List (Region α) := []
  calls : Nat := 0

/-- A call of `writev` that does not fail. -/
def WriteResult.isAccepted : WriteResult → Bool
  | .accepted _ => true
  | .again | .failed => false

namespace TcpConnection
variable {α : Type} [Pointer α]

/-- A pass of the loop; it returns with the number of calls. -/
def writePass (results : Stream' WriteResult) (s : Writing α) : Pass (Writing α) (Written α × Nat) :=
  match results.get s.calls with
  | .accepted n =>
      let n := min n (offered s.conn.ioVecList)
      let accepted := s.accepted ++ takeFront n s.conn.ioVecList
      let conn := { s.conn with ioVecList := dropFront n s.conn.ioVecList }
      if conn.ioVecList.isEmpty then
        .done ({ conn := { conn with writing := false }, accepted, complete := true }, s.calls + 1)
      else .next { conn, accepted, calls := s.calls + 1 }
  | .again => .done ({ conn := s.conn, accepted := s.accepted }, s.calls + 1)
  | .failed => .done ({ conn := s.conn.onClose, accepted := s.accepted }, s.calls + 1)

/-- What `OnWrite` returns with, and after how many calls, within a number of passes. -/
def onWriteWithin (c : TcpConnection α) (results : Stream' WriteResult) (passes : Nat) :
    Option (Written α × Nat) :=
  if c.closed then some ({ conn := c }, 0)
  else if c.ioVecList.isEmpty then some ({ conn := c }, 0)
  else Loop.within (writePass results) passes { conn := c }

theorem within_writeLoop (results : Stream' WriteResult) (passes : Nat) {s : Writing α} {w : Written α} {calls : Nat}
    (h : Loop.within (writePass results) passes s = some (w, calls)) :
    ∃ k, calls = s.calls + k ∧
      w = { s.conn.writeLoop ((results.drop s.calls).take k) with
            accepted := s.accepted ++ (s.conn.writeLoop ((results.drop s.calls).take k)).accepted } := by
  have htake : ∀ i k, (results.drop i).take (k + 1) = results.get i :: (results.drop (i + 1)).take k := by
    intro i k
    rw [Stream'.take_succ, Stream'.head_drop, Stream'.tail_drop']
  induction passes generalizing s with
  | zero => exact absurd h nofun
  | succ passes ih =>
      rw [Loop.within, writePass] at h
      cases hres : results.get s.calls with
      | again =>
          rw [hres] at h
          obtain ⟨rfl, rfl⟩ := Prod.mk.inj (Option.some.inj h)
          refine ⟨1, rfl, ?_⟩
          rw [htake, hres, writeLoop, List.append_nil]
      | failed =>
          rw [hres] at h
          obtain ⟨rfl, rfl⟩ := Prod.mk.inj (Option.some.inj h)
          refine ⟨1, rfl, ?_⟩
          rw [htake, hres, writeLoop, List.append_nil]
      | accepted n =>
          rw [hres] at h
          dsimp only at h
          by_cases hdone : (dropFront (min n (offered s.conn.ioVecList)) s.conn.ioVecList).isEmpty = true
          · rw [if_pos hdone] at h
            obtain ⟨rfl, rfl⟩ := Prod.mk.inj (Option.some.inj h)
            refine ⟨1, rfl, ?_⟩
            rw [htake, hres, writeLoop]
            dsimp only
            rw [if_pos hdone]
          · rw [if_neg hdone] at h
            obtain ⟨k, rfl, rfl⟩ := ih h
            refine ⟨k + 1, Nat.add_right_comm s.calls 1 k, ?_⟩
            rw [htake, hres, writeLoop]
            dsimp only
            rw [if_neg hdone, List.append_assoc]

/-- It is `OnWrite` on the results of its calls. -/
theorem onWriteWithin_eq {c : TcpConnection α} {results : Stream' WriteResult} {passes : Nat} {w : Written α}
    {calls : Nat} (h : c.onWriteWithin results passes = some (w, calls)) : w = c.onWrite (results.take calls) := by
  unfold onWriteWithin at h
  unfold onWrite
  split
  next hclosed =>
    rw [if_pos hclosed] at h
    exact (Prod.mk.inj (Option.some.inj h)).1.symm
  next hopen =>
    rw [if_neg hopen] at h
    split
    next hempty =>
      rw [if_pos hempty] at h
      exact (Prod.mk.inj (Option.some.inj h)).1.symm
    next hpending =>
      rw [if_neg hpending] at h
      obtain ⟨k, rfl, hw⟩ := within_writeLoop results passes h
      rw [hw, Nat.zero_add, Stream'.drop_zero, List.nil_append]

/-- All is written, and it is told so. -/
structure Flushed (w : Written α) : Prop where
  pending : w.conn.ioVecList = []
  writing : w.conn.writing = false
  complete : w.complete = true

/-- `OnWrite` returns, and with everything written where none of its calls failed. -/
def Delivers (c : TcpConnection α) (results : Stream' WriteResult) : Prop :=
  ∃ passes w calls, c.onWriteWithin results passes = some (w, calls) ∧ w = c.onWrite (results.take calls) ∧
    ((∀ i < calls, (results.get i).isAccepted = true) → Flushed w)

section Passes
variable {results : Stream' WriteResult} {s : Writing α}

theorem writePass_done {t : Written α × Nat} (h : writePass results s = .done t) :
    (∀ i < t.2, (results.get i).isAccepted = true) → Flushed t.1 := by
  intro hall
  have hfailed : ∀ res, results.get s.calls = res → res.isAccepted = false → t.2 = s.calls + 1 → False := by
    rintro res rfl hres ht
    have hlast := hall s.calls (by rw [ht]; exact Nat.lt_succ_self _)
    exact Bool.noConfusion (hres.symm.trans hlast)
  unfold writePass at h
  split at h
  next n hres =>
    dsimp only at h
    split at h
    next hempty =>
      obtain rfl := Pass.done.inj h
      exact ⟨List.isEmpty_iff.mp hempty, rfl, rfl⟩
    next => exact absurd h nofun
  next hres =>
    obtain rfl := Pass.done.inj h
    exact (hfailed _ hres rfl rfl).elim
  next hres =>
    obtain rfl := Pass.done.inj h
    exact (hfailed _ hres rfl rfl).elim

theorem writePass_next {s' : Writing α} (h : writePass results s = .next s') : ∃ n, results.get s.calls = .accepted n ∧
    s'.conn.ioVecList = dropFront (min n (offered s.conn.ioVecList)) s.conn.ioVecList ∧ s'.conn.ioVecList ≠ [] ∧
      s'.calls = s.calls + 1 := by
  unfold writePass at h
  split at h
  next n hres =>
    dsimp only at h
    split at h
    next => exact absurd h nofun
    next hleft =>
      obtain rfl := Pass.next.inj h
      exact ⟨n, hres, rfl, fun hnil => hleft (List.isEmpty_iff.mpr hnil), rfl⟩
  next => exact absurd h nofun
  next => exact absurd h nofun

/-- With an empty vector at the end, an accepted call is never the last. -/
theorem writePass_hollow (hhollow : EndsHollow s.conn.ioVecList) (hres : (results.get s.calls).isAccepted = true) :
    ∃ s', writePass results s = .next s' ∧ EndsHollow s'.conn.ioVecList := by
  have hleft : ∀ n, EndsHollow (dropFront (min n (offered s.conn.ioVecList)) s.conn.ioVecList) :=
    fun n => hhollow.dropFront (Nat.min_le_right _ _)
  unfold writePass
  split
  next n _ =>
    dsimp only
    rw [if_neg fun hempty => (hleft n).ne_nil (List.isEmpty_iff.mp hempty)]
    exact ⟨_, rfl, hleft n⟩
  next hagain =>
    rw [hagain] at hres
    exact absurd hres nofun
  next hfailed =>
    rw [hfailed] at hres
    exact absurd hres nofun

end Passes

section Termination
variable {c : TcpConnection α} {results : Stream' WriteResult}

theorem delivers_of_returns (hopen : c.closed = false) (hpending : c.ioVecList ≠ [])
    (h : ∃ t, Loop.Returns (writePass results) { conn := c } t) : c.Delivers results := by
  obtain ⟨⟨w, calls⟩, hreturns⟩ := h
  have hflushed := hreturns.post (I := fun _ => True) trivial (fun _ _ _ _ => trivial) fun s t _ => writePass_done
  obtain ⟨passes, hpasses⟩ := hreturns
  have hwithin : c.onWriteWithin results passes = some (w, calls) := by
    unfold onWriteWithin
    rw [if_neg (by rw [hopen]; exact Bool.false_ne_true), if_neg fun h => hpending (List.isEmpty_iff.mp h)]
    exact hpasses
  exact ⟨passes, w, calls, hwithin, onWriteWithin_eq hwithin, hflushed⟩

theorem delivers_solid (hopen : c.closed = false) (hpos : ∀ i n, results.get i = .accepted n → 0 < n)
    (hsolid : EndsSolid c.ioVecList) : c.Delivers results := by
  refine delivers_of_returns hopen hsolid.ne_nil ?_
  refine Loop.returns_of_measure (I := fun s => EndsSolid s.conn.ioVecList)
    (fun s => offered s.conn.ioVecList) hsolid fun s s' hs hpass => ?_
  obtain ⟨n, hres, hlist, hne, -⟩ := writePass_next hpass
  have hn := hpos _ _ hres
  have hoffered := hs.offered_pos
  constructor
  · rcases hs.dropFront (min n (offered s.conn.ioVecList)) with hnil | hsolid'
    · exact absurd (hlist.trans hnil) hne
    · rw [hlist]
      exact hsolid'
  · rw [hlist, offered_dropFront _ (Nat.min_le_right _ _)]
    omega

theorem delivers_failed (hopen : c.closed = false) (hpending : c.ioVecList ≠ []) {i : Nat}
    (hi : (results.get i).isAccepted = false) : c.Delivers results := by
  refine delivers_of_returns hopen hpending ?_
  refine Loop.returns_of_measure (I := fun s => s.calls ≤ i) (fun s => i - s.calls) (Nat.zero_le i)
    fun s s' hs hpass => ?_
  obtain ⟨n, hres, -, -, hcalls⟩ := writePass_next hpass
  have hne : s.calls ≠ i := by
    rintro rfl
    rw [hres] at hi
    exact absurd hi nofun
  rw [hcalls]
  omega

theorem not_delivers_hollow (hopen : c.closed = false) (hhollow : EndsHollow c.ioVecList)
    (hall : ∀ i, (results.get i).isAccepted = true) : ¬ c.Delivers results := by
  rintro ⟨passes, w, calls, hwithin, -⟩
  unfold onWriteWithin at hwithin
  rw [if_neg (by rw [hopen]; exact Bool.false_ne_true),
    if_neg fun h => hhollow.ne_nil (List.isEmpty_iff.mp h)] at hwithin
  exact Loop.not_returns (I := fun s : Writing α => EndsHollow s.conn.ioVecList) hhollow
    (fun s hs => writePass_hollow hs (hall s.calls)) ⟨passes, hwithin⟩

theorem not_delivers_empty (hempty : c.ioVecList = []) : ¬ c.Delivers results := by
  rintro ⟨passes, w, calls, hwithin, -, hflushed⟩
  have hsame : c.onWriteWithin results passes = some ({ conn := c }, 0) := by
    unfold onWriteWithin
    split
    · rfl
    · rw [if_pos (List.isEmpty_iff.mpr hempty)]
  obtain ⟨rfl, rfl⟩ := Prod.mk.inj (Option.some.inj (hwithin.symm.trans hsame))
  exact absurd (hflushed fun i hi => absurd hi (Nat.not_lt_zero i)).complete nofun

theorem delivers_iff (hopen : c.closed = false) (hpos : ∀ i n, results.get i = .accepted n → 0 < n) :
    c.Delivers results ↔ EndsSolid c.ioVecList ∨ EndsHollow c.ioVecList ∧ ∃ i, (results.get i).isAccepted = false := by
  constructor
  · intro h
    by_cases hempty : c.ioVecList = []
    · exact absurd h (not_delivers_empty hempty)
    refine (ends_of_ne_nil hempty).imp_right fun hhollow => ⟨hhollow, ?_⟩
    by_contra hnone
    refine not_delivers_hollow hopen hhollow (fun i => ?_) h
    exact Bool.of_not_eq_false fun hi => hnone ⟨i, hi⟩
  · rintro (hsolid | ⟨hhollow, i, hi⟩)
    · exact delivers_solid hopen hpos hsolid
    · exact delivers_failed hopen hhollow.ne_nil hi

end Termination

section Sent
variable (list : List (Region α)) (results : Stream' WriteResult)

omit [Pointer α] in
theorem sendListInLoop_open : (({} : TcpConnection α).sendListInLoop list).closed = false := by
  cases list with
  | nil => rfl
  | cons v vs => rfl

omit [Pointer α] in
theorem sendListInLoop_ioVecList : (({} : TcpConnection α).sendListInLoop list).ioVecList = list := by
  cases list with
  | nil => rfl
  | cons v vs => rfl

/-- `OnWrite` delivers what `Send` queued exactly when the last vector is not empty, or a call fails. -/
theorem onWrite_delivers_iff (hpos : ∀ i n, results.get i = .accepted n → 0 < n) :
    (({} : TcpConnection α).sendListInLoop list).Delivers results ↔
      EndsSolid list ∨ EndsHollow list ∧ ∃ i, (results.get i).isAccepted = false := by
  rw [delivers_iff (sendListInLoop_open list) hpos, sendListInLoop_ioVecList]

end Sent

/-- Three bytes, two at a time. -/
theorem onWrite_delivers_iff_short :
    (({} : TcpConnection UInt64).sendListInLoop [⟨100, 3⟩]).Delivers (Stream'.const (.accepted 2)) :=
  (onWrite_delivers_iff [⟨100, 3⟩] (Stream'.const (.accepted 2))
    (fun _ _ h => WriteResult.accepted.inj h ▸ Nat.zero_lt_two)).mpr (.inl ⟨_, rfl, by decide⟩)

/-- The header of an empty message and its body: `OnWrite` never returns. -/
theorem emptyBody_hangs : ¬ ∀ (list : List (Region UInt64)) (results : Stream' WriteResult),
    (∀ i n, results.get i = .accepted n → 0 < n) →
      (({} : TcpConnection UInt64).sendListInLoop list).Delivers results := by
  intro h
  refine not_delivers_hollow (sendListInLoop_open [⟨100, 12⟩, ⟨112, 0⟩]) ?_ (fun _ => rfl)
    (h _ (Stream'.const (.accepted 12)) fun _ _ hres => WriteResult.accepted.inj hres ▸ (by decide : 0 < 12))
  rw [sendListInLoop_ioVecList]
  exact ⟨_, rfl, rfl⟩

end TcpConnection
end TmmsServer
