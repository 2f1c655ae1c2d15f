import Mathlib.Data.Stream.Init
import TmmsServer.Lib.Loop

/-!
# The sending side of `UdpSocket`

`SendInLoop` and `OnWrite` on the list of datagrams not yet sent. What `sendto` does
with a datagram is an input: it takes all of it or fails. The loop of `OnWrite` has no
exit behind the last datagram.
-/
namespace TmmsServer
open Lib

/-- A datagram and the address it goes to. -/
structure UdpBufferNode where
  data : List UInt8
  sockAddr : List UInt8
  deriving DecidableEq, Repr

/-- `sendto` sends the datagram, asks to come back (`EINTR`, `EAGAIN`, `EWOULDBLOCK`), or has another error. -/
inductive SendtoResult where
  | sent
  | again
  | failed
  deriving DecidableEq, Repr

structure UdpSocket where
  closed : Bool := false
  bufferList : List UdpBufferNode := []
  writing : Bool := false
  deriving DecidableEq

namespace UdpSocket

/-- `OnClose`, as far as sending goes. -/
def onClose (u : UdpSocket) : UdpSocket := { u with closed := true }

/-- `SendInLoop(std::list<UdpBufferNodePtr>&)`. -/
def sendListInLoop (u : UdpSocket) (list : List UdpBufferNode) : UdpSocket :=
  let u := { u with bufferList := u.bufferList ++ list }
  if u.bufferList.isEmpty then u else { u with writing := true }

/-- `SendInLoop(const char*, size_t, ...)`; an empty datagram that was sent is queued as well. -/
def sendInLoop (u : UdpSocket) (buf : UdpBufferNode) (res : SendtoResult) : UdpSocket :=
  if u.bufferList.isEmpty ∧ res = .sent ∧ 0 < buf.data.length then u
  else { u with bufferList := u.bufferList ++ [buf], writing := true }

end UdpSocket

/-- `OnWrite` inside its loop: the datagrams `sendto` has sent, how often it was called, and how often
`write_complete_cb_` was. -/
structure Sending where
  socket : UdpSocket
  sent : List UdpBufferNode := []
  calls : Nat := 0
  completes : Nat := 0

namespace Sending

/-- The end of a pass: the callback, where nothing is left. -/
def finish (s : Sending) : Sending :=
  if s.socket.bufferList.isEmpty then { s with completes := s.completes + 1 } else s

/-- A pass of the loop. -/
def pass (results : Stream' SendtoResult) (s : Sending) : Pass Sending Sending :=
  match s.socket.bufferList with
  | [] => .next s.finish
  | buf :: rest =>
      match results.get s.calls with
      | .sent =>
          let s := { s with
            sent := s.sent ++ [buf]
            calls := s.calls + 1 }
          -- `sendto` returns the size, and with 0 the datagram stays
          if 0 < buf.data.length then .next { s with socket := { s.socket with bufferList := rest } }.finish
          else .next s.finish
      | .again => .done { s with calls := s.calls + 1 }
      | .failed =>
          .done { s with
            socket := s.socket.onClose
            calls := s.calls + 1 }

end Sending

namespace UdpSocket

/-- What `OnWrite` comes to within a number of passes. -/
def onWriteWithin (u : UdpSocket) (results : Stream' SendtoResult) (passes : Nat) : Option Sending :=
  if u.closed then some { socket := u } else Loop.within (Sending.pass results) passes { socket := u }

/-- `OnWrite` returns; what is sent and what is left are the queue, and the callback has run once if
nothing is left. -/
def Drains (u : UdpSocket) (results : Stream' SendtoResult) : Prop :=
  ∃ passes s, u.onWriteWithin results passes = some s ∧ u.bufferList = s.sent ++ s.socket.bufferList ∧
    (s.socket.bufferList = [] → s.completes = 1)

end UdpSocket

/-- A call of `sendto` before the last datagram is through fails, and the datagrams in front of it are not
empty and are sent. -/
def StopsInside (queue : List UdpBufferNode) (results : Stream' SendtoResult) : Prop :=
  ∃ f < queue.length, results.get f ≠ .sent ∧
    ∀ i < f, results.get i = .sent ∧ ∀ buf, queue[i]? = some buf → buf.data ≠ []

theorem stopsInside_cons {buf : UdpBufferNode} {rest : List UdpBufferNode} {results : Stream' SendtoResult} :
    StopsInside (buf :: rest) results ↔
      results.get 0 ≠ .sent ∨ results.get 0 = .sent ∧ buf.data ≠ [] ∧ StopsInside rest results.tail := by
  constructor
  · rintro ⟨f, hf, hfail, hfront⟩
    cases f with
    | zero => exact .inl hfail
    | succ f =>
        obtain ⟨hsent, hdata⟩ := hfront 0 (Nat.succ_pos f)
        exact .inr ⟨hsent, hdata buf rfl, f, Nat.lt_of_succ_lt_succ hf, hfail,
          fun i hi => hfront (i + 1) (Nat.succ_lt_succ hi)⟩
  · rintro (hfail | ⟨hsent, hdata, f, hf, hfail, hfront⟩)
    · exact ⟨0, Nat.succ_pos _, hfail, fun i hi => absurd hi (Nat.not_lt_zero i)⟩
    · refine ⟨f + 1, Nat.succ_lt_succ hf, hfail, fun i hi => ?_⟩
      cases i with
      | zero =>
          refine ⟨hsent, fun buf' hbuf => ?_⟩
          obtain rfl := Option.some.inj hbuf
          exact hdata
      | succ i => exact hfront i (Nat.lt_of_succ_lt_succ hi)

namespace Sending
variable {results : Stream' SendtoResult} {s : Sending}

@[simp] theorem finish_socket (s : Sending) : s.finish.socket = s.socket := by
  unfold finish
  split
  · rfl
  · rfl

@[simp] theorem finish_sent (s : Sending) : s.finish.sent = s.sent := by
  unfold finish
  split
  · rfl
  · rfl

@[simp] theorem finish_calls (s : Sending) : s.finish.calls = s.calls := by
  unfold finish
  split
  · rfl
  · rfl

/-- The datagrams sent and those left. -/
def total (s : Sending) : Nat := s.sent.length + s.socket.bufferList.length

/-- No pass drops a datagram; an empty one counts again each time it is sent. -/
theorem pass_total (s : Sending) :
    (∀ s', pass results s = .next s' → s.total ≤ s'.total) ∧ ∀ t, pass results s = .done t → s.total ≤ t.total := by
  unfold pass total
  split
  next =>
    refine ⟨fun s' h => ?_, fun t h => absurd h nofun⟩
    obtain rfl := Pass.next.inj h
    rw [finish_sent, finish_socket]
  next buf rest hlist =>
    split
    next =>
      dsimp only
      split
      next =>
        refine ⟨fun s' h => ?_, fun t h => absurd h nofun⟩
        obtain rfl := Pass.next.inj h
        rw [finish_sent, finish_socket, hlist, List.length_append, List.length_singleton, List.length_cons]
        dsimp only
        omega
      next =>
        refine ⟨fun s' h => ?_, fun t h => absurd h nofun⟩
        obtain rfl := Pass.next.inj h
        rw [finish_sent, finish_socket, List.length_append]
        dsimp only
        omega
    next =>
      refine ⟨fun s' h => absurd h nofun, fun t h => ?_⟩
      obtain rfl := Pass.done.inj h
      exact Nat.le_refl _
    next =>
      refine ⟨fun s' h => absurd h nofun, fun t h => ?_⟩
      obtain rfl := Pass.done.inj h
      exact Nat.le_refl _

theorem returns_total {t : Sending} (h : Loop.Returns (pass results) s t) : s.total ≤ t.total :=
  h.post (I := fun s' => s.total ≤ s'.total) (Nat.le_refl _)
    (fun s' s'' hs hpass => Nat.le_trans hs ((pass_total s').1 s'' hpass))
    fun s' t hs hpass => Nat.le_trans hs ((pass_total s').2 t hpass)

theorem not_returns_empty {t : Sending} (hempty : s.socket.bufferList = []) : ¬ Loop.Returns (pass results) s t := by
  refine Loop.not_returns (I := fun s : Sending => s.socket.bufferList = []) hempty fun s hs => ?_
  refine ⟨s.finish, ?_, ?_⟩
  · rw [pass, hs]
  · rw [finish_socket]
    exact hs

section Front
variable {buf : UdpBufferNode} {rest : List UdpBufferNode} (hlist : s.socket.bufferList = buf :: rest)
include hlist

theorem pass_failing (hfail : results.get s.calls ≠ .sent) :
    ∃ t, pass results s = .done t ∧ t.sent = s.sent ∧ t.socket.bufferList = buf :: rest := by
  unfold pass
  rw [hlist]
  dsimp only
  split
  next hsent => exact absurd hsent hfail
  next => exact ⟨_, rfl, rfl, hlist⟩
  next => exact ⟨_, rfl, rfl, hlist⟩

theorem pass_sent (hsent : results.get s.calls = .sent) (hdata : buf.data ≠ []) :
    ∃ s', pass results s = .next s' ∧ s'.sent = s.sent ++ [buf] ∧ s'.socket.bufferList = rest ∧
      s'.calls = s.calls + 1 := by
  unfold pass
  rw [hlist, hsent]
  dsimp only
  rw [if_pos (List.length_pos_iff.mpr hdata)]
  exact ⟨_, rfl, by rw [finish_sent], by rw [finish_socket], by rw [finish_calls]⟩

theorem pass_empty (hsent : results.get s.calls = .sent) (hdata : buf.data = []) :
    ∃ s', pass results s = .next s' ∧ s.total < s'.total := by
  unfold pass
  rw [hlist, hsent]
  dsimp only
  rw [if_neg (by rw [hdata]; exact Nat.lt_irrefl 0)]
  refine ⟨_, rfl, ?_⟩
  rw [total, total, finish_sent, finish_socket, List.length_append, List.length_singleton]
  dsimp only
  omega

end Front

/-- With a failure in front of the end the loop returns there. -/
theorem returns_stopped {queue : List UdpBufferNode} (hlist : s.socket.bufferList = queue)
    (h : StopsInside queue (results.drop s.calls)) :
    ∃ t, Loop.Returns (pass results) s t ∧ s.sent ++ queue = t.sent ++ t.socket.bufferList ∧
      t.socket.bufferList ≠ [] := by
  induction queue generalizing s with
  | nil =>
      obtain ⟨f, hf, -⟩ := h
      exact absurd hf (Nat.not_lt_zero f)
  | cons buf rest ih =>
      have hget : (results.drop s.calls).get 0 = results.get s.calls := by rw [Stream'.get_drop, Nat.add_zero]
      rw [stopsInside_cons, hget, Stream'.tail_drop'] at h
      rcases h with hfail | ⟨hsent, hdata, hrest⟩
      · obtain ⟨t, hpass, htsent, htlist⟩ := pass_failing hlist hfail
        refine ⟨t, Loop.returns_done hpass, ?_, ?_⟩
        · rw [htsent, htlist]
        · rw [htlist]
          exact List.cons_ne_nil _ _
      · obtain ⟨s', hpass, hs'sent, hs'list, hs'calls⟩ := pass_sent hlist hsent hdata
        rw [← hs'calls] at hrest
        obtain ⟨t, hreturns, hall, hleft⟩ := ih hs'list hrest
        refine ⟨t, (Loop.returns_next hpass).mpr hreturns, ?_, hleft⟩
        rw [← hall, hs'sent, List.append_assoc]
        rfl

/-- A loop that returns with each datagram sent once or left was stopped inside the queue. -/
theorem stopped_of_returns {t : Sending} {queue : List UdpBufferNode} (hlist : s.socket.bufferList = queue)
    (hreturns : Loop.Returns (pass results) s t) (hall : s.sent ++ queue = t.sent ++ t.socket.bufferList) :
    StopsInside queue (results.drop s.calls) := by
  induction queue generalizing s with
  | nil => exact absurd hreturns (not_returns_empty hlist)
  | cons buf rest ih =>
      have hget : (results.drop s.calls).get 0 = results.get s.calls := by rw [Stream'.get_drop, Nat.add_zero]
      rw [stopsInside_cons, hget, Stream'.tail_drop']
      by_cases hsent : results.get s.calls = .sent
      · refine .inr ⟨hsent, ?_⟩
        by_cases hdata : buf.data = []
        · -- it is sent and still there
          obtain ⟨s', hpass, hmore⟩ := pass_empty hlist hsent hdata
          have htotal := returns_total ((Loop.returns_next hpass).mp hreturns)
          have hlength := congrArg List.length hall
          rw [List.length_append, List.length_append, ← hlist] at hlength
          unfold total at htotal hmore
          omega
        · obtain ⟨s', hpass, hs'sent, hs'list, hs'calls⟩ := pass_sent hlist hsent hdata
          have hstopped := ih hs'list ((Loop.returns_next hpass).mp hreturns)
            (by rw [hs'sent, List.append_assoc]; exact hall)
          rw [hs'calls] at hstopped
          exact ⟨hdata, hstopped⟩
      · exact .inl hsent

end Sending

namespace UdpSocket

theorem sendListInLoop_bufferList (list : List UdpBufferNode) :
    (({} : UdpSocket).sendListInLoop list).bufferList = list := by
  cases list with
  | nil => rfl
  | cons buf list => rfl

theorem sendListInLoop_open (list : List UdpBufferNode) : (({} : UdpSocket).sendListInLoop list).closed = false := by
  cases list with
  | nil => rfl
  | cons buf list => rfl

/-- `OnWrite` drains what `Send` queued exactly when it is stopped inside the queue. -/
theorem drains_iff (list : List UdpBufferNode) (results : Stream' SendtoResult) :
    (({} : UdpSocket).sendListInLoop list).Drains results ↔ StopsInside list results := by
  have hlist := sendListInLoop_bufferList list
  have hloop : ∀ passes, (({} : UdpSocket).sendListInLoop list).onWriteWithin results passes =
      Loop.within (Sending.pass results) passes { socket := ({} : UdpSocket).sendListInLoop list } := fun passes =>
    if_neg (by rw [sendListInLoop_open]; exact Bool.false_ne_true)
  constructor
  · rintro ⟨passes, t, hwithin, hall, -⟩
    rw [hloop] at hwithin
    rw [hlist] at hall
    exact Sending.stopped_of_returns (s := { socket := ({} : UdpSocket).sendListInLoop list }) hlist
      ⟨passes, hwithin⟩ hall
  · intro h
    obtain ⟨t, ⟨passes, hwithin⟩, hall, hleft⟩ :=
      Sending.returns_stopped (s := { socket := ({} : UdpSocket).sendListInLoop list }) hlist h
    refine ⟨passes, t, (hloop passes).trans hwithin, ?_, fun hempty => absurd hempty hleft⟩
    rw [hlist]
    exact hall

/-- One datagram that is sent: `OnWrite` never returns. -/
theorem drained_hangs : ¬ ∀ (list : List UdpBufferNode) (results : Stream' SendtoResult),
    (({} : UdpSocket).sendListInLoop list).Drains results := by
  intro h
  obtain ⟨passes, t, hwithin, -⟩ := h [⟨[1], []⟩] (Stream'.const .sent)
  obtain ⟨s', hpass, -, hempty, -⟩ :=
    @Sending.pass_sent (Stream'.const .sent) { socket := ({} : UdpSocket).sendListInLoop [⟨[1], []⟩] } _ _ rfl rfl
      (List.cons_ne_nil _ _)
  exact Sending.not_returns_empty hempty ((Loop.returns_next hpass).mp ⟨passes, hwithin⟩)

end UdpSocket
end TmmsServer
