import TmmsServer.Net.TcpConnection

/-!
# What a connection puts on the wire

Runs of `Send` and `OnWrite` on one connection in its loop thread, over a flat
memory whose sent buffers stay as they are.
-/
namespace TmmsServer
open Lib.Gather

instance : Pointer UInt64 := ⟨fun a n => a + UInt64.ofNat n⟩

section Memory
variable (mem : UInt64 → UInt8)

/-- The bytes of a region of memory. -/
def bytesAt (v : Region UInt64) : List UInt8 :=
  (List.range v.len).map fun i => mem (Pointer.advance v.base i)

@[simp] theorem bytesAt_length (v : Region UInt64) : (bytesAt mem v).length = v.len := by
  simp [bytesAt]

theorem advance_advance (a : UInt64) (m n : Nat) :
    Pointer.advance (Pointer.advance a m) n = Pointer.advance a (m + n) := by
  change a + UInt64.ofNat m + UInt64.ofNat n = a + UInt64.ofNat (m + n)
  rw [UInt64.ofNat_add, UInt64.add_assoc]

theorem bytesAt_holding : Holding fun v bs => bs = bytesAt mem v where
  length := by
    rintro v bs rfl
    exact bytesAt_length mem v
  front := by
    rintro v bs n rfl hn
    unfold bytesAt
    rw [← List.map_take, List.take_range, Nat.min_eq_left hn]
  back := by
    rintro v bs n rfl hn
    refine List.ext_getElem (by simp) fun i h₁ h₂ => ?_
    simp only [bytesAt, List.getElem_drop, List.getElem_map, List.getElem_range, advance_advance]

theorem spells_bytesAt (vs : List (Region UInt64)) :
    Spells (fun v bs => bs = bytesAt mem v) vs (vs.flatMap (bytesAt mem)) := by
  induction vs with
  | nil => exact .nil
  | cons v vs ih => exact .cons rfl ih

theorem eq_of_spells {vs : List (Region UInt64)} {w : List UInt8}
    (h : Spells (fun v bs => bs = bytesAt mem v) vs w) : w = vs.flatMap (bytesAt mem) := by
  induction vs generalizing w with
  | nil => exact h.nil_eq
  | cons v vs ih =>
      obtain ⟨bs, w', rfl, hvs, rfl⟩ := h.uncons
      rw [ih hvs]
      rfl

end Memory

inductive OutputOp where
  | send (buf : UInt64) (size : UInt64) (res : WriteResult)
  | sendList (list : List (Region UInt64))
  | onWrite (results : List WriteResult)

/-- A connection, the bytes given to it and the bytes the socket accepted so far, and whether the
last call ran the write-complete callback. -/
structure Output where
  conn : TcpConnection UInt64 := {}
  sent : List UInt8 := []
  accepted : List UInt8 := []
  complete : Bool := false

namespace Output
variable (mem : UInt64 → UInt8)

def step (o : Output) : OutputOp → Output
  | .send buf size res =>
      let w := o.conn.sendInLoop buf size res
      { conn := w.conn
        sent := o.sent ++ bytesAt mem ⟨buf, size.toNat⟩
        accepted := o.accepted ++ w.accepted.flatMap (bytesAt mem)
        complete := w.complete }
  | .sendList list =>
      { o with
        conn := o.conn.sendListInLoop list
        sent := o.sent ++ list.flatMap (bytesAt mem)
        complete := false }
  | .onWrite results =>
      let w := o.conn.onWrite results
      { o with
        conn := w.conn
        accepted := o.accepted ++ w.accepted.flatMap (bytesAt mem)
        complete := w.complete }

def run (o : Output) (ops : List OutputOp) : Output := ops.foldl (step mem) o

/-- What the socket accepted and what the vectors describe are together what was sent, and the
write-complete callback ran with nothing pending. -/
structure Intact (o : Output) : Prop where
  bytes : o.accepted ++ o.conn.ioVecList.flatMap (bytesAt mem) = o.sent
  complete : o.complete = true → o.conn.ioVecList = []

end Output

/-- The call meets no error but those that ask to come back. -/
def OutputOp.Soft : OutputOp → Prop
  | .send _ _ res => res ≠ .failed
  | .sendList _ => True
  | .onWrite results => .failed ∉ results

instance : DecidablePred OutputOp.Soft
  | .send _ _ res => inferInstanceAs (Decidable (res ≠ .failed))
  | .sendList _ => .isTrue trivial
  | .onWrite results => inferInstanceAs (Decidable (.failed ∉ results))

/-- The call is a direct write, on an empty list, that the socket turns down. -/
def OutputOp.DirectFailure (o : Output) : OutputOp → Prop
  | .send _ _ res => o.conn.ioVecList = [] ∧ res = .again
  | .sendList _ | .onWrite _ => False

/-- No direct write of the run is turned down. -/
def NoDirectFailure (mem : UInt64 → UInt8) : Output → List OutputOp → Prop
  | _, [] => True
  | o, op :: ops => ¬ op.DirectFailure o ∧ NoDirectFailure mem (o.step mem op) ops

/-- A call that took over the bytes `b`: what was accepted and what is pending afterwards are what
was pending before and `b`. -/
structure Keeps (mem : UInt64 → UInt8) (c : TcpConnection UInt64) (b : List UInt8) (w : Written UInt64) :
    Prop where
  bytes : w.accepted.flatMap (bytesAt mem) ++ w.conn.ioVecList.flatMap (bytesAt mem) =
    c.ioVecList.flatMap (bytesAt mem) ++ b
  complete : w.complete = true → w.conn.ioVecList = []
  opened : w.conn.closed = false

section Steps
variable {mem : UInt64 → UInt8} {c : TcpConnection UInt64}

theorem keeps_refl (hopen : c.closed = false) : Keeps mem c [] { conn := c } where
  bytes := by rw [List.flatMap_nil, List.nil_append, List.append_nil]
  complete := nofun
  opened := hopen

theorem keeps_push (hopen : c.closed = false) (v : Region UInt64) :
    Keeps mem c (bytesAt mem v) { conn := c.push v } where
  bytes := by
    change _ ++ (c.ioVecList ++ [v]).flatMap (bytesAt mem) = _
    rw [List.flatMap_nil, List.nil_append, List.flatMap_append, List.flatMap_singleton]
  complete := nofun
  opened := hopen

/-- A direct write that the socket takes something of. -/
theorem sendInLoop_accepted (hopen : c.closed = false) (hempty : c.ioVecList = [])
    (buf size : UInt64) (n : Nat) :
    Keeps mem c (bytesAt mem ⟨buf, size.toNat⟩) (c.sendInLoop buf size (.accepted n)) := by
  have hlen : (TcpConnection.sendLen size (.accepted n)).toNat = min n size.toNat := by
    have hsize := size.toNat_lt
    rw [TcpConnection.sendLen, UInt64.toNat_ofNat']
    exact Nat.mod_eq_of_lt (by omega)
  have hle : TcpConnection.sendLen size (.accepted n) ≤ size := by
    rw [UInt64.le_iff_toNat_le, hlen]
    exact Nat.min_le_right _ _
  have hrest := UInt64.toNat_sub_of_le _ _ hle
  have hnonneg : ¬ TcpConnection.sendLen size (.accepted n) < 0 := UInt64.not_lt_zero
  have hnil : c.ioVecList.isEmpty = true := by rw [hempty]; rfl
  unfold TcpConnection.sendInLoop
  dsimp only
  rw [if_neg (by rw [hopen]; exact Bool.false_ne_true), if_pos hnil, if_neg (fun h => hnonneg h.1),
    if_neg hnonneg]
  have hall := (spells_bytesAt mem [⟨buf, size.toNat⟩]).split (bytesAt_holding mem)
  split
  next hzero =>
    have heq : (TcpConnection.sendLen size (.accepted n)).toNat = size.toNat := by
      have := congrArg UInt64.toNat hzero
      rw [hrest, UInt64.toNat_zero] at this
      rw [hlen] at this ⊢
      omega
    refine ⟨?_, fun _ => hempty, hopen⟩
    rw [heq, hempty]
    simp
  next hmore =>
    refine ⟨?_, nofun, hopen⟩
    change _ ++ (c.ioVecList ++ [_]).flatMap (bytesAt mem) = _
    rw [hempty, hrest]
    have hfront := (bytesAt_holding mem).front (v := ⟨buf, size.toNat⟩) rfl
      (UInt64.le_iff_toNat_le.mp hle)
    have hback := (bytesAt_holding mem).back (v := ⟨buf, size.toNat⟩) rfl
      (UInt64.le_iff_toNat_le.mp hle)
    dsimp only at hfront hback
    rw [List.nil_append, List.flatMap_singleton, List.flatMap_singleton, ← hfront, ← hback,
      List.take_append_drop]
    rfl

theorem sendInLoop_queued (hopen : c.closed = false) (hne : c.ioVecList ≠ []) (buf size : UInt64)
    (res : WriteResult) :
    Keeps mem c (bytesAt mem ⟨buf, size.toNat⟩) (c.sendInLoop buf size res) := by
  have hnil : c.ioVecList.isEmpty = false := by
    cases h : c.ioVecList with
    | nil => exact absurd h hne
    | cons v vs => rfl
  unfold TcpConnection.sendInLoop
  rw [if_neg (by rw [hopen]; exact Bool.false_ne_true),
    if_neg (by rw [hnil]; exact Bool.false_ne_true)]
  split
  next => exact keeps_push hopen _
  next hzero =>
    have hz : size.toNat = 0 := by
      rw [UInt64.lt_iff_toNat_lt] at hzero
      exact Nat.eq_zero_of_not_pos hzero
    rw [hz]
    exact keeps_refl hopen

/-- A direct write that is turned down: the vector queued starts a byte before the buffer and is one longer. -/
theorem sendInLoop_again (hopen : c.closed = false) (hempty : c.ioVecList = [])
    (buf size : UInt64) : c.sendInLoop buf size .again =
      if size + 1 = 0 then { conn := c, complete := true }
      else { conn := c.push ⟨Pointer.advance buf (-1 : UInt64).toNat, (size + 1).toNat⟩ } := by
  have hnonneg : ¬ TcpConnection.sendLen size .again < 0 := UInt64.not_lt_zero
  have hnil : c.ioVecList.isEmpty = true := by rw [hempty]; rfl
  have hwrap : size - TcpConnection.sendLen size .again = size + 1 := by
    change size - (-1) = size + 1
    grind
  unfold TcpConnection.sendInLoop
  dsimp only
  rw [if_neg (by rw [hopen]; exact Bool.false_ne_true), if_pos hnil, if_neg (fun h => hnonneg h.1),
    if_neg hnonneg, hwrap]
  rfl

theorem sendListInLoop_keeps (mem : UInt64 → UInt8) (hopen : c.closed = false)
    (list : List (Region UInt64)) :
    Keeps mem c (list.flatMap (bytesAt mem)) { conn := c.sendListInLoop list } := by
  unfold TcpConnection.sendListInLoop
  dsimp only
  rw [if_neg (by rw [hopen]; exact Bool.false_ne_true)]
  split
  · exact ⟨List.flatMap_append, nofun, hopen⟩
  · exact ⟨List.flatMap_append, nofun, hopen⟩

theorem onWrite_keeps (mem : UInt64 → UInt8) (results : List WriteResult) (hopen : c.closed = false)
    (hsoft : .failed ∉ results) : Keeps mem c [] (c.onWrite results) := by
  have hprogress := TcpConnection.onWrite_progress (bytesAt_holding mem) results hopen hsoft
    (spells_bytesAt mem c.ioVecList)
  obtain ⟨done, rest, hsplit, hdone, hrest⟩ := hprogress.bytes
  refine ⟨?_, hprogress.complete, hprogress.opened⟩
  rw [← eq_of_spells mem hdone, ← eq_of_spells mem hrest, ← hsplit, List.append_nil]

end Steps

section Runs
variable {mem : UInt64 → UInt8} {o : Output}

theorem Keeps.intact {b : List UInt8} {w : Written UInt64} (h : o.Intact mem)
    (hk : Keeps mem o.conn b w) :
    ({ conn := w.conn
       sent := o.sent ++ b
       accepted := o.accepted ++ w.accepted.flatMap (bytesAt mem)
       complete := w.complete } : Output).Intact mem where
  bytes := by
    dsimp only
    rw [List.append_assoc, hk.bytes, ← List.append_assoc, h.bytes]
  complete := hk.complete

theorem step_intact (h : o.Intact mem) (hopen : o.conn.closed = false) {op : OutputOp}
    (hsoft : op.Soft)
    (hdirect : ¬ op.DirectFailure o) : (o.step mem op).Intact mem ∧
    (o.step mem op).conn.closed = false := by
  cases op with
  | send buf size res =>
      have hk : Keeps mem o.conn (bytesAt mem ⟨buf, size.toNat⟩) (o.conn.sendInLoop buf size res) := by
        by_cases hempty : o.conn.ioVecList = []
        · cases res with
          | accepted n => exact sendInLoop_accepted hopen hempty buf size n
          | again => exact absurd ⟨hempty, rfl⟩ hdirect
          | failed => exact absurd rfl hsoft
        · exact sendInLoop_queued hopen hempty buf size res
      exact ⟨hk.intact h, hk.opened⟩
  | sendList list =>
      have hk := sendListInLoop_keeps mem hopen list
      have hi := hk.intact h
      rw [List.flatMap_nil, List.append_nil] at hi
      exact ⟨hi, hk.opened⟩
  | onWrite results =>
      have hk := onWrite_keeps mem results hopen hsoft
      have hi := hk.intact h
      rw [List.append_nil] at hi
      exact ⟨hi, hk.opened⟩

/-- After a direct write that is turned down, the bytes pending are not those not yet accepted. -/
theorem directFailure_not_intact (h : o.Intact mem) (hopen : o.conn.closed = false) {op : OutputOp}
    (hdirect : op.DirectFailure o) : ¬ (o.step mem op).Intact mem := by
  intro hi
  cases op with
  | sendList list => exact hdirect
  | onWrite results => exact hdirect
  | send buf size res =>
      obtain ⟨hempty, rfl⟩ := hdirect
      have hbefore := congrArg List.length h.bytes
      have hafter := congrArg List.length hi.bytes
      have hsize := size.toNat_lt
      simp only [Output.step, sendInLoop_again hopen hempty] at hafter
      rw [hempty] at hbefore
      have hsum : (size + 1).toNat = (size.toNat + 1) % 2 ^ 64 := UInt64.toNat_add size 1
      split at hafter
      next hwrap =>
        have hzero := congrArg UInt64.toNat hwrap
        rw [hsum, UInt64.toNat_zero] at hzero
        simp only [hempty, List.flatMap_nil, List.append_nil, List.length_append,
          bytesAt_length] at hafter hbefore
        omega
      next =>
        simp only [TcpConnection.push, hempty, List.nil_append, List.flatMap_nil, List.append_nil,
          List.flatMap_singleton, List.length_append, bytesAt_length] at hafter hbefore
        omega

theorem run_cons (op : OutputOp) (ops : List OutputOp) :
    o.run mem (op :: ops) = (o.step mem op).run mem ops := rfl

theorem run_intact (h : o.Intact mem) (hopen : o.conn.closed = false) {ops : List OutputOp}
    (hsoft : ∀ op ∈ ops, op.Soft) (hnone : NoDirectFailure mem o ops) (n : Nat) :
    (o.run mem (ops.take n)).Intact mem := by
  induction ops generalizing o n with
  | nil => rwa [List.take_nil]
  | cons op ops ih =>
      cases n with
      | zero => exact h
      | succ n =>
          obtain ⟨hi, ho⟩ := step_intact h hopen (hsoft op List.mem_cons_self) hnone.1
          rw [List.take_succ_cons, run_cons]
          exact ih hi ho (fun op' hop => hsoft op' (List.mem_cons_of_mem _ hop)) hnone.2 n

theorem noDirectFailure_of_intact (hopen : o.conn.closed = false) {ops : List OutputOp}
    (hsoft : ∀ op ∈ ops, op.Soft) (h : ∀ n, (o.run mem (ops.take n)).Intact mem) :
    NoDirectFailure mem o ops := by
  induction ops generalizing o with
  | nil => trivial
  | cons op ops ih =>
      have hnone : ¬ op.DirectFailure o := fun hdirect =>
        directFailure_not_intact (h 0) hopen hdirect (h 1)
      obtain ⟨-, ho⟩ := step_intact (h 0) hopen (hsoft op List.mem_cons_self) hnone
      exact ⟨hnone, ih ho (fun op' hop => hsoft op' (List.mem_cons_of_mem _ hop)) fun n => h (n + 1)⟩

theorem intact_initial : ({} : Output).Intact mem := ⟨rfl, nofun⟩

/-- Output integrity: at every moment of a run the bytes accepted and the vectors pending are, in
order, the bytes sent, exactly when no direct write is turned down. -/
theorem intact_iff_noDirectFailure (mem : UInt64 → UInt8) (ops : List OutputOp)
    (hsoft : ∀ op ∈ ops, op.Soft) :
    (∀ n, (Output.run mem {} (ops.take n)).Intact mem) ↔ NoDirectFailure mem {} ops := by
  constructor
  · exact noDirectFailure_of_intact rfl hsoft
  · intro hnone n
    exact run_intact intact_initial rfl hsoft hnone n

/-- A direct write of two of three bytes, and the third with `OnWrite`. -/
theorem intact_iff_noDirectFailure_shortWrite :
    (Output.run (fun a => a.toUInt8) {}
      [.send 100 3 (.accepted 2), .onWrite [.again], .onWrite [.accepted 1]]).Intact fun a => a.toUInt8 := by
  have hall := (intact_iff_noDirectFailure (fun a => a.toUInt8)
    [.send 100 3 (.accepted 2), .onWrite [.again], .onWrite [.accepted 1]] (by decide)).mpr
    ⟨fun h => WriteResult.noConfusion h.2, id, id, trivial⟩
  exact hall 3

/-- A direct write of three bytes that is turned down: four bytes are queued, from the one before the buffer. -/
theorem turnedDown_not_intact :
    ¬ ∀ (mem : UInt64 → UInt8) (ops : List OutputOp), (∀ op ∈ ops, op.Soft) →
      ∀ n, (Output.run mem {} (ops.take n)).Intact mem := by
  intro h
  exact absurd (h (fun a => a.toUInt8) [.send 100 3 .again] (by decide) 1).bytes (by decide)

end Runs
end TmmsServer
