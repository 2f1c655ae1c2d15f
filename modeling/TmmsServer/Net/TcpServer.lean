import Mathlib.Data.Finset.Basic
import Mathlib.Logic.Function.Basic

/-!
# `TcpServer` and its connections

`connections_`, the `events_` of the loop and the open descriptors, through the
handlers that accept and close. Callbacks may close any connection, this one or
another, and the destroy callback runs inside the close. The objects of closed
connections are kept as long as a handler uses them.
-/
namespace TmmsServer

/-- A connection the server accepted. How often its close handling and the destroy callback ran for
it is counted. -/
structure ServerConnection where
  fd : Int
  closed : Bool := false
  closes : Nat := 0
  destroys : Nat := 0
  deriving DecidableEq, Repr

/-- What an entry of `events_` points to. -/
inductive EventRef where
  | acceptor
  | connection (id : Nat)
  deriving DecidableEq, Repr

/-- The server, its acceptor and its loop, with the descriptors they have open. Connections are
numbered as they are accepted. -/
structure TcpServer where
  accepted : Nat := 0
  connection : Nat → Option ServerConnection := fun _ => none
  connections : Finset Nat := ∅
  events : Int → Option EventRef := fun _ => none
  acceptorFd : Int := -1
  opened : Finset Int := ∅
  destroyConnectionCb : Bool := true

/-- What a callback or a function of the loop calls: `ForceClose` on one connection after the other,
each with what the destroy callback calls inside it. -/
inductive Calls where
  | done
  | forceClose (id : Nat) (inside rest : Calls)
  deriving Repr

namespace TcpServer

def setConnection (s : TcpServer) (id : Nat) (c : ServerConnection) : TcpServer :=
  { s with connection := Function.update s.connection id (some c) }

def addEvent (s : TcpServer) (fd : Int) (event : EventRef) : TcpServer :=
  match s.events fd with
  | some _ => s
  | none => { s with events := Function.update s.events fd (some event) }

def delEvent (s : TcpServer) (fd : Int) : TcpServer :=
  match s.events fd with
  | none => s
  | some _ => { s with events := Function.update s.events fd none }

/-- `Event::Close` of a connection. -/
def close (s : TcpServer) (id : Nat) : TcpServer :=
  match s.connection id with
  | none => s
  | some c =>
      if 0 < c.fd then { s.setConnection id { c with fd := -1 } with opened := s.opened.erase c.fd } else s

def onConnectionClose (s : TcpServer) (destroy : TcpServer → TcpServer) (id : Nat) : TcpServer :=
  match s.connection id with
  | none => s
  | some c =>
      let s := { s with connections := s.connections.erase id }
      let s := s.delEvent c.fd
      if s.destroyConnectionCb then destroy (s.setConnection id { c with destroys := c.destroys + 1 }) else s

/-- `TcpConnection::OnClose`. -/
def onClose (s : TcpServer) (destroy : TcpServer → TcpServer) (id : Nat) : TcpServer :=
  match s.connection id with
  | none => s
  | some c =>
      if c.closed then s
      else ((s.setConnection id { c with closed := true, closes := c.closes + 1 }).onConnectionClose
        destroy id).close id

end TcpServer

/-- `ForceClose` in the loop thread is `OnClose`. -/
def Calls.run : Calls → TcpServer → TcpServer
  | .done, s => s
  | .forceClose id inside rest, s => rest.run (s.onClose inside.run id)

/-- What `accept` comes back with, before it would block. -/
inductive AcceptReturn where
  /-- A socket, and what the new-connection callback calls. -/
  | accepted (fd : Int) (newConnection : Calls)
  /-- An error, and the new socket of the acceptor. -/
  | failed (socket : Int)
  deriving Repr

/-- What `ReadFd` comes back with, before it would block. -/
inductive ReadTurn where
  | got (message : Calls)
  | eof (destroy : Calls)
  | failed (destroy : Calls)
  deriving Repr

/-- What the loop of `OnWrite` comes to. -/
inductive WriteOutcome where
  | pending
  | complete (writeComplete : Calls)
  | failed (destroy : Calls)
  deriving Repr

/-- The handler the loop calls for an event, with what it meets as a connection or as the acceptor. -/
inductive EventCall where
  | onError
  | onClose (destroy : Calls) (socket : Int)
  | onRead (accepts : List AcceptReturn) (reads : List ReadTurn)
  | onWrite (outcome : WriteOutcome)
  deriving Repr

inductive LoopEvent where
  | dispatch (fd : Int) (call : EventCall)
  /-- The last `TimeoutEntry` of a connection is released. -/
  | timeout (id : Nat) (destroy : Calls)
  | function (calls : Calls)
  deriving Repr

namespace TcpServer

/-- The system hands out no descriptor that is open. -/
def handsOut (s : TcpServer) (fd : Int) : Bool := decide (0 ≤ fd) && decide (fd ∉ s.opened)

/-- `Acceptor::Open` with what `socket` comes back with; there is no next state where it cannot. -/
def openAcceptor (s : TcpServer) (fd : Int) : Option TcpServer :=
  let s := if 0 < s.acceptorFd then { s with opened := s.opened.erase s.acceptorFd, acceptorFd := -1 } else s
  if s.handsOut fd then
    some ({ s with acceptorFd := fd, opened := insert fd s.opened }.addEvent fd .acceptor)
  else none

/-- `Acceptor::OnClose`. -/
def acceptorOnClose (s : TcpServer) (socket : Int) : Option TcpServer :=
  (s.delEvent s.acceptorFd).openAcceptor socket

def onAccet (s : TcpServer) (fd : Int) (newConnection : Calls) : TcpServer :=
  let id := s.accepted
  let s := { s with accepted := id + 1, connections := insert id s.connections }.setConnection id { fd }
  newConnection.run (s.addEvent fd (.connection id))

/-- `Acceptor::OnRead`. -/
def acceptorOnRead (s : TcpServer) : List AcceptReturn → Option TcpServer
  | [] => some s
  | .accepted fd newConnection :: accepts =>
      if s.handsOut fd then
        ({ s with opened := insert fd s.opened }.onAccet fd newConnection).acceptorOnRead accepts
      else none
  | .failed socket :: _ => s.acceptorOnClose socket

/-- The loop of `OnRead`; a closed descriptor gives `EBADF`. -/
def readLoop (s : TcpServer) (id : Nat) : List ReadTurn → TcpServer
  | [] => s
  | turn :: turns =>
      match s.connection id with
      | none => s
      | some c =>
          if c.fd < 0 then s.onClose Calls.done.run id
          else match turn with
            | .got message => (message.run s).readLoop id turns
            | .eof destroy | .failed destroy => s.onClose destroy.run id

def onRead (s : TcpServer) (id : Nat) (reads : List ReadTurn) : TcpServer :=
  match s.connection id with
  | none => s
  | some c => if c.closed then s else s.readLoop id reads

def onWrite (s : TcpServer) (id : Nat) (outcome : WriteOutcome) : TcpServer :=
  match s.connection id with
  | none => s
  | some c =>
      if c.closed then s
      else match outcome with
        | .pending => s
        | .complete writeComplete => writeComplete.run s
        | .failed destroy => s.onClose destroy.run id

/-- One handler, in `loop`, in the timing wheel or in `RunFunctions`. -/
def step (s : TcpServer) : LoopEvent → Option TcpServer
  | .dispatch fd call =>
      if fd ≤ 0 then some s
      else match s.events fd with
        | none => some s
        | some .acceptor => match call with
            | .onClose _ socket => s.acceptorOnClose socket
            | .onRead accepts _ => s.acceptorOnRead accepts
            | .onError | .onWrite _ => some s
        | some (.connection id) => match call with
            | .onClose destroy _ => some (s.onClose destroy.run id)
            | .onRead _ reads => some (s.onRead id reads)
            | .onWrite outcome => some (s.onWrite id outcome)
            | .onError => some s
  | .timeout id destroy => some (s.onClose destroy.run id)
  | .function calls => some (calls.run s)

def run (s : TcpServer) : List LoopEvent → Option TcpServer
  | [] => some s
  | event :: events => do
      let s ← s.step event
      s.run events

/-- `Start`, with the socket of the acceptor. -/
def start (destroyConnectionCb : Bool) (socket : Int) : Option TcpServer :=
  ({ destroyConnectionCb } : TcpServer).openAcceptor socket

end TcpServer
end TmmsServer
