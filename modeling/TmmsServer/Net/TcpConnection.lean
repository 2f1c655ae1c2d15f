import TmmsServer.Lib.Gather

/-!
# The sending side of `TcpConnection`

`Send` and `OnWrite` on the list of vectors not yet written. What the socket does
with a `write` or `writev` is an input; the bytes it accepts are reported as the
regions they come from. The write-complete callback is always the last thing a
function does, so it is reported and runs afterwards.
-/
namespace TmmsServer
open Lib.Gather

/-- The result of `write` or `writev`: a number of bytes (the socket takes no more than it is
offered), an error that asks to come back (`EINTR`, `EAGAIN`, `EWOULDBLOCK`), or another error. -/
inductive WriteResult where
  | accepted (n : Nat)
  | again
  | failed
  deriving DecidableEq, Repr

structure TcpConnection (α : Type) where
  closed : Bool := false
  ioVecList : List (Region α) := []
  writing : Bool := false
  deriving DecidableEq

/-- What came of a call: the connection, the regions accepted, and whether the write-complete
callback runs. -/
structure Written (α : Type) where
  conn : TcpConnection α
  accepted : List (Region α) := []
  complete : Bool := false
  deriving DecidableEq

namespace TcpConnection
variable {α : Type} [Pointer α]

/-- `OnClose`, as far as sending goes. -/
def onClose (c : TcpConnection α) : TcpConnection α := { c with closed := true }

/-- `io_vec_list_.push_back` and `EnableWriting(true)`. -/
def push (c : TcpConnection α) (vec : Region α) : TcpConnection α :=
  { c with ioVecList := c.ioVecList ++ [vec], writing := true }

/-- The return value of `::write` for a buffer of `size` bytes, converted to `size_t`. -/
def sendLen (size : UInt64) : WriteResult → UInt64
  | .accepted n => UInt64.ofNat (min n size.toNat)
  | .again | .failed => -1

/-- `SendInLoop(const char*, size_t)`. -/
def sendInLoop (c : TcpConnection α) (buf : α) (size : UInt64) (res : WriteResult) : Written α :=
  if c.closed then { conn := c }
  else if c.ioVecList.isEmpty then
    let len := sendLen size res
    -- `send_len` is unsigned, so neither of these branches is ever taken
    if len < 0 ∧ res = .failed then { conn := c.onClose }
    else
      let len := if len < 0 then 0 else len
      let accepted := match res with
        | .accepted _ => [⟨buf, len.toNat⟩]
        | _ => []
      let size := size - len
      if size = 0 then { conn := c, accepted, complete := true }
      else { conn := c.push ⟨Pointer.advance buf len.toNat, size.toNat⟩, accepted }
  else if 0 < size then { conn := c.push ⟨buf, size.toNat⟩ }
  else { conn := c }

/-- `SendInLoop(std::list<BufferNodePtr>&)`. -/
def sendListInLoop (c : TcpConnection α) (list : List (Region α)) : TcpConnection α :=
  if c.closed then c
  else
    let c := { c with ioVecList := c.ioVecList ++ list }
    if c.ioVecList.isEmpty then c else { c with writing := true }

/-- The loop of `OnWrite`; where the results end, the last `writev` has not returned yet. -/
def writeLoop (c : TcpConnection α) : List WriteResult → Written α
  | [] => { conn := c }
  | .accepted n :: results =>
      let n := min n (offered c.ioVecList)
      let accepted := takeFront n c.ioVecList
      let c := { c with ioVecList := dropFront n c.ioVecList }
      if c.ioVecList.isEmpty then { conn := { c with writing := false }, accepted, complete := true }
      else
        let w := writeLoop c results
        { w with accepted := accepted ++ w.accepted }
  | .again :: _ => { conn := c }
  | .failed :: _ => { conn := c.onClose }

/-- `OnWrite`. -/
def onWrite (c : TcpConnection α) (results : List WriteResult) : Written α :=
  if c.closed then { conn := c }
  else if c.ioVecList.isEmpty then { conn := c }
  else writeLoop c results

/-- What `OnWrite` makes of pending vectors that hold `pending`: the bytes accepted come off the
front, and the callback runs with nothing left. -/
structure Progress {β : Type} (R : Region α → List β → Prop) (pending : List β) (w : Written α) : Prop where
  bytes : ∃ done rest, pending = done ++ rest ∧ Spells R w.accepted done ∧ Spells R w.conn.ioVecList rest
  complete : w.complete = true → w.conn.ioVecList = []
  opened : w.conn.closed = false

section Progress
variable {β : Type} {R : Region α → List β → Prop} {c : TcpConnection α} {pending : List β}

omit [Pointer α] in
theorem progress_none (hopen : c.closed = false) (hp : Spells R c.ioVecList pending) :
    Progress R pending { conn := c } where
  bytes := ⟨[], pending, rfl, .nil, hp⟩
  complete := nofun
  opened := hopen

/-- The loop of `OnWrite`, over any number of short writes. -/
theorem writeLoop_progress (hR : Holding R) (results : List WriteResult) (hopen : c.closed = false)
    (hsoft : .failed ∉ results) (hp : Spells R c.ioVecList pending) :
    Progress R pending (c.writeLoop results) := by
  induction results generalizing c pending with
  | nil => exact progress_none hopen hp
  | cons res results ih =>
      cases res with
      | failed => exact absurd List.mem_cons_self hsoft
      | again => exact progress_none hopen hp
      | accepted n =>
          unfold writeLoop
          dsimp only
          generalize min n (offered c.ioVecList) = m
          obtain ⟨htake, hdrop⟩ := hp.split hR m
          have hpending : pending = pending.take m ++ pending.drop m :=
            (List.take_append_drop m pending).symm
          split
          next hdone => exact ⟨⟨_, _, hpending, htake, hdrop⟩, fun _ => List.isEmpty_iff.mp hdone, hopen⟩
          next =>
            have hrest := ih (c := { c with ioVecList := dropFront m c.ioVecList }) hopen
              (fun h => hsoft (List.mem_cons_of_mem _ h)) hdrop
            obtain ⟨done, rest, hsplit, hdone, hleft⟩ := hrest.bytes
            refine ⟨⟨pending.take m ++ done, rest, ?_, htake.append hdone, hleft⟩, hrest.complete, hrest.opened⟩
            rw [List.append_assoc, ← hsplit]
            exact hpending

theorem onWrite_progress (hR : Holding R) (results : List WriteResult) (hopen : c.closed = false)
    (hsoft : .failed ∉ results) (hp : Spells R c.ioVecList pending) :
    Progress R pending (c.onWrite results) := by
  unfold onWrite
  rw [if_neg (by rw [hopen]; exact Bool.false_ne_true)]
  split
  · exact progress_none hopen hp
  · exact writeLoop_progress hR results hopen hsoft hp

end Progress
end TcpConnection
end TmmsServer
