import TmmsServer.Lib.Epoll
import TmmsServer.Net.TcpConnection

/-!
# `EventLoop::loop` with its connections

The loop waits, gives each event to a handler, and runs its functions and timers.
A handler is broken up at its system calls: between two of them the kernel may
change what holds of any descriptor. Message, write-complete and close callbacks,
functions and timers may send on any connection and close it.
-/
namespace TmmsServer
open Lib.Gather Lib.Epoll

def kEventRead : Events := { epollin := true, epollpri := true, epollet := true }

def kEventWrite : Events := { epollout := true, epollet := true }

/-- A connection of a loop, with its `event_` and its descriptor. -/
structure LoopConnection (α : Type) where
  conn : TcpConnection α := {}
  event : Events := {}
  fd : Descriptor := {}
  deriving DecidableEq

/-- What a `write` or `writev` comes back with. -/
inductive WriteReturn where
  | accepted (n : Nat)
  | eagain
  | eintr
  | failed
  deriving DecidableEq, Repr

namespace WriteReturn

def result : WriteReturn → WriteResult
  | .accepted n => .accepted n
  | .eagain | .eintr => .again
  | .failed => .failed

/-- A writable socket does not answer `EAGAIN`. -/
def possible (d : Descriptor) : WriteReturn → Bool
  | .eagain => !d.conditions.epollout
  | _ => true

end WriteReturn

/-- What `ReadFd` comes back with. -/
inductive ReadReturn where
  | got
  | eof
  | eagain
  | eintr
  | failed
  deriving DecidableEq, Repr

/-- A readable socket does not answer `EAGAIN`. -/
def ReadReturn.possible (d : Descriptor) : ReadReturn → Bool
  | .eagain => !d.conditions.epollin
  | _ => true

namespace LoopConnection
variable {α : Type} [Pointer α]

/-- `events_` has the connection. -/
def registered (w : LoopConnection α) : Bool := w.fd.interest.isSome

def addEvent (w : LoopConnection α) : LoopConnection α :=
  if w.registered then w
  else
    let event := w.event ||| kEventRead
    { w with event, fd := w.fd.register event }

def enableEventWriting (w : LoopConnection α) (enable : Bool) : LoopConnection α :=
  if w.registered then
    let event := if enable then w.event ||| kEventWrite else w.event &&& ~~~kEventWrite
    { w with event, fd := w.fd.register event }
  else w

/-- `OnClose`: the close callback is that of `TcpServer`, which calls `DelEvent`. -/
def onClose (w : LoopConnection α) : LoopConnection α :=
  { w with conn := w.conn.onClose, fd := w.fd.unregister }

/-- `SendInLoop(const char*, size_t)`; where it pushes a vector it calls `EnableWriting(true)`. -/
def sendInLoop (w : LoopConnection α) (buf : α) (size : UInt64) (ret : WriteReturn) :
    LoopConnection α :=
  let conn := (w.conn.sendInLoop buf size ret.result).conn
  let pushed := w.conn.ioVecList.length < conn.ioVecList.length
  let w := { w with conn }
  if pushed then w.enableEventWriting true else w

/-- `SendInLoop(std::list<BufferNodePtr>&)`; it calls `EnableWriting(true)` where anything is pending. -/
def sendListInLoop (w : LoopConnection α) (list : List (Region α)) : LoopConnection α :=
  let w := { w with conn := w.conn.sendListInLoop list }
  if w.conn.closed || w.conn.ioVecList.isEmpty then w else w.enableEventWriting true

/-- One turn of the loop in `OnWrite`. The loop goes on unless the vectors are all written or there is an error. -/
def writeTurn (w : LoopConnection α) (ret : WriteReturn) : LoopConnection α × Bool :=
  let written := w.conn.writeLoop [ret.result]
  let w := { w with conn := written.conn }
  match ret with
  | .accepted _ => if written.complete then (w.enableEventWriting false, false) else (w, true)
  | .eagain | .eintr => (w, false)
  | .failed => (w.onClose, false)

omit [Pointer α] in
theorem enableEventWriting_conn (w : LoopConnection α) (enable : Bool) :
    (w.enableEventWriting enable).conn = w.conn := by
  unfold enableEventWriting
  split
  · rfl
  · rfl

end LoopConnection

/-- Where `loop` is. -/
inductive Phase where
  /-- In `epoll_wait`. -/
  | waiting
  /-- Before the next of the events reported. -/
  | dispatching (events : List (Nat × Events))
  /-- In `OnRead`, before `ReadFd`. -/
  | reading (fd : Nat) (events : List (Nat × Events))
  /-- In `OnWrite`, before `writev`. -/
  | writing (fd : Nat) (events : List (Nat × Events))
  /-- In `RunFunctions` or `OnTimer`. -/
  | functions
  deriving DecidableEq

/-- The events reported and not yet taken up. -/
def Phase.events : Phase → List (Nat × Events)
  | .dispatching events | .reading _ events | .writing _ events => events
  | .waiting | .functions => []

/-- Callbacks and functions run in the loop, and not between two `writev`. -/
def Phase.callsBack : Phase → Bool
  | .dispatching _ | .reading _ _ | .functions => true
  | .waiting | .writing _ _ => false

/-- The event of an acceptor is one of those reported, and `Start` a function. -/
def Phase.accepts : Phase → Bool
  | .dispatching _ | .functions => true
  | .waiting | .reading _ _ | .writing _ _ => false

/-- The handler of an event. -/
inductive Handler where
  | onError
  | onClose
  | onRead
  | onWrite
  | none
  deriving DecidableEq, Repr

/-- The chain of `else if` in `loop`. -/
def handlerOf (ev : Events) : Handler :=
  if ev.epollerr then .onError
  else if ev.epollhup && !ev.epollin then .onClose
  else if ev.epollin || ev.epollpri then .onRead
  else if ev.epollout then .onWrite
  else .none

structure EventLoop (α : Type) where
  connections : Nat → Option (LoopConnection α) := fun _ => none
  phase : Phase := .functions

inductive LoopAction (α : Type) where
  | becomes (fd : Nat) (conditions : Events)
  | ceases (fd : Nat) (conditions : Events)
  | epollWait (fds : List Nat)
  | dispatch
  | readFd (ret : ReadReturn)
  | writev (ret : WriteReturn)
  | functionsDone
  | accept (fd : Nat) (conditions : Events)
  | send (fd : Nat) (buf : α) (size : UInt64) (ret : WriteReturn)
  | sendList (fd : Nat) (list : List (Region α))
  | close (fd : Nat)
  deriving DecidableEq

namespace EventLoop
variable {α : Type}

def set (loop : EventLoop α) (fd : Nat) (w : LoopConnection α) : EventLoop α :=
  { loop with connections := fun fd' => if fd' = fd then some w else loop.connections fd' }

def moveTo (loop : EventLoop α) (phase : Phase) : EventLoop α := { loop with phase }

/-- The connection of a descriptor changes. -/
def update (loop : EventLoop α) (fd : Nat) (f : LoopConnection α → LoopConnection α) :
    Option (EventLoop α) :=
  (loop.connections fd).map fun w => loop.set fd (f w)

/-- A callback or a function of the loop does something with a connection. -/
def callback (loop : EventLoop α) (fd : Nat) (f : LoopConnection α → LoopConnection α) :
    Option (EventLoop α) :=
  if loop.phase.callsBack then loop.update fd f else none

/-- `epoll_wait` goes through queued descriptors and collects what they report. -/
def collect (loop : EventLoop α) : List Nat → Option (EventLoop α × List (Nat × Events))
  | [] => some (loop, [])
  | fd :: fds => do
      let w ← loop.connections fd
      if w.fd.queued then
        let (ev, d) := w.fd.report
        let (loop, events) ← (loop.set fd { w with fd := d }).collect fds
        some (loop, (ev.map (fd, ·)).toList ++ events)
      else none

variable [Pointer α]
open LoopConnection (addEvent)

/-- The body of the loop over the events, up to the first system call of the handler. An event of descriptor 0
is left out, as one of a descriptor that `events_` does not have. -/
def dispatch (loop : EventLoop α) (fd : Nat) (ev : Events) (rest : List (Nat × Events)) :
    EventLoop α :=
  if fd = 0 then loop.moveTo (.dispatching rest)
  else
    match (loop.connections fd).filter (·.registered) with
    | none => loop.moveTo (.dispatching rest)
    | some w =>
        match handlerOf ev with
        | .onError =>
            -- `getsockopt` takes the error; `OnError` writes to the log and returns
            (loop.set fd { w with fd := w.fd.ceases { epollerr := true } }).moveTo (.dispatching rest)
        | .onClose => (loop.set fd w.onClose).moveTo (.dispatching rest)
        | .onRead => loop.moveTo (if w.conn.closed then .dispatching rest else .reading fd rest)
        | .onWrite =>
            loop.moveTo (if w.conn.closed || w.conn.ioVecList.isEmpty then .dispatching rest else .writing fd rest)
        | .none => loop.moveTo (.dispatching rest)

/-- The loop of `OnRead`, from a `ReadFd` to the next; the message callback follows a read that got something. -/
def readTurn (loop : EventLoop α) (fd : Nat) (rest : List (Nat × Events)) (w : LoopConnection α)
    (ret : ReadReturn) : EventLoop α :=
  match ret with
  | .got => loop
  | .eagain | .eintr => loop.moveTo (.dispatching rest)
  | .eof | .failed => (loop.set fd w.onClose).moveTo (.dispatching rest)

/-- What the kernel, the loop or a callback does next; `none` where it cannot. -/
def step (loop : EventLoop α) : LoopAction α → Option (EventLoop α)
  | .becomes fd conditions => loop.update fd fun w => { w with fd := w.fd.becomes conditions }
  | .ceases fd conditions => loop.update fd fun w => { w with fd := w.fd.ceases conditions }
  | .epollWait fds =>
      if loop.phase = .waiting ∧ fds.Nodup then
        (loop.collect fds).map fun (loop, events) => loop.moveTo (.dispatching events)
      else none
  | .dispatch =>
      match loop.phase with
      | .dispatching [] => some (loop.moveTo .functions)
      | .dispatching ((fd, ev) :: rest) => some (loop.dispatch fd ev rest)
      | _ => none
  | .readFd ret =>
      match loop.phase with
      | .reading fd rest => do
          let w ← loop.connections fd
          if ret.possible w.fd then some (loop.readTurn fd rest w ret) else none
      | _ => none
  | .writev ret =>
      match loop.phase with
      | .writing fd rest => do
          let w ← loop.connections fd
          if ret.possible w.fd then
            let (w, more) := w.writeTurn ret
            some ((loop.set fd w).moveTo (if more then .writing fd rest else .dispatching rest))
          else none
      | _ => none
  | .functionsDone => if loop.phase = .functions then some (loop.moveTo .waiting) else none
  | .accept fd conditions =>
      -- `OnAccet` makes the connection and calls `AddEvent`
      if loop.phase.accepts ∧ (loop.connections fd).all (·.conn.closed) then
        some (loop.set fd (addEvent { fd := { conditions } }))
      else none
  | .send fd buf size ret =>
      match loop.connections fd with
      | some w => if ret.possible w.fd then loop.callback fd (·.sendInLoop buf size ret) else none
      | none => none
  | .sendList fd list => loop.callback fd (·.sendListInLoop list)
  | .close fd => loop.callback fd (·.onClose)

end EventLoop
end TmmsServer
