import TmmsServer.Lib.Runs
import TmmsServer.Net.EventLoop

/-!
# `TcpClient`

A client connection in its loop thread, with its socket and what epoll keeps of it. The
event of the descriptor is reported first and handled later, and the loop of `OnRead` is
broken up at `ReadFd`, so that what the connect and message callbacks do comes as the next
action. The close callback does nothing with the client. `ConnectInLoop` does not ask
whether there is a descriptor already: one that is still in `events_` stays there as a
stray, and its events go on to the handlers of the client.
-/
namespace TmmsServer
open Lib.Gather Lib.Epoll Lib.Runs

/-- `status_`. -/
inductive TcpConStatus where
  | init
  | connecting
  | connected
  | disconnected
  deriving DecidableEq, Repr

/-- The socket behind `fd_`. -/
inductive ClientSocket where
  /-- There is none, or it was never connected. -/
  | idle
  /-- `connect` came back with `EINPROGRESS`. -/
  | connecting
  | established
  /-- The peer refused, or could not be reached. -/
  | refused
  deriving DecidableEq, Repr

/-- What `connect` comes back with. -/
inductive ConnectReturn where
  | ok
  | inProgress
  | failed
  deriving DecidableEq, Repr

/-- What the user sees: `connected_cb_`, `close_cb_`, `message_cb_` and what the socket takes. -/
inductive ClientEvent (α : Type) where
  | connected
  | closed
  | message
  | wrote (regions : List (Region α))

namespace ClientEvent

def isData {α : Type} : ClientEvent α → Bool
  | .message | .wrote _ => true
  | .connected | .closed => false

end ClientEvent

/-- `fd` is whether `fd_` is a descriptor, `soError` what `getsockopt` of `SO_ERROR` finds, `reported` the event
of `epoll_wait` still to be handled, and `reading` is set in the loop of `OnRead`; `openFds` counts the descriptors
created and not closed, `strays` those of them that `Connect` left in `events_`; `events` is the history of what
the user sees. -/
structure TcpClient (α : Type) where
  link : LoopConnection α := {}
  status : TcpConStatus := .init
  fd : Bool := false
  socket : ClientSocket := .idle
  soError : Bool := false
  reported : Option Events := none
  reading : Bool := false
  openFds : Nat := 0
  strays : Nat := 0
  events : List (ClientEvent α) := []

inductive ClientAction (α : Type) where
  /-- `Connect`, with whether there is a socket and what `connect` comes back with. -/
  | connect (socket : Bool) (ret : ConnectReturn)
  /-- The connection comes about, or does not. -/
  | establish
  | refuse
  /-- Conditions of an established connection. -/
  | becomes (conditions : Events)
  | ceases (conditions : Events)
  /-- `epoll_wait` comes to the descriptor. -/
  | epollWait
  /-- The event is handled, with what the calls of `writev` come back with. -/
  | handle (writes : List WriteReturn)
  /-- The event of a stray is handled. Whatever a socket can report is allowed. -/
  | stray (ev : Events) (writes : List WriteReturn)
  /-- In the loop of `OnRead`. -/
  | readFd (ret : ReadReturn)
  | send (buf : α) (size : UInt64) (ret : WriteReturn)
  | sendList (list : List (Region α))
  | forceClose

namespace TcpClient
variable {α : Type}

def registered (c : TcpClient α) : Bool := c.link.registered

/-- `Event::Close`. -/
def close (c : TcpClient α) : TcpClient α :=
  if c.fd then
    { c with
      fd := false, openFds := c.openFds - 1, socket := .idle, link := { c.link with fd := c.link.fd.unregister } }
  else c

def delEvent (c : TcpClient α) : TcpClient α :=
  { c with link := { c.link with fd := c.link.fd.unregister } }

/-- `TcpConnection::OnClose`. -/
def connectionOnClose (c : TcpClient α) : TcpClient α :=
  if c.link.conn.closed then c
  else
    ({ c with
      link := { c.link with conn := { c.link.conn with closed := true } }
      events := c.events ++ [.closed] } : TcpClient α).close

def onClose (c : TcpClient α) : TcpClient α :=
  let c := if c.status = .connecting ∨ c.status = .connected then c.delEvent else c
  ({ c with status := .disconnected } : TcpClient α).connectionOnClose

def updateConnectionStatus (c : TcpClient α) : TcpClient α :=
  { c with status := .connected, events := c.events ++ [.connected] }

/-- `CheckError`, and what `OnRead` and `OnWrite` do with it; `getsockopt` takes the error. -/
def checkError (c : TcpClient α) : TcpClient α :=
  let c' := { c with soError := false }
  if c.soError then c'.onClose else c'.updateConnectionStatus

/-- The descriptor `socket` comes back with: neither connected nor connecting. -/
def freshDescriptor : Descriptor := { conditions := { epollout := true, epollhup := true } }

/-- `fd_` is overwritten; a descriptor that is in `events_` stays there, with what was reported of it. -/
def dropFd (c : TcpClient α) : TcpClient α :=
  if c.registered then { c with strays := c.strays + 1, reported := none, link := { c.link with fd := {} } } else c

def connectInLoop (c : TcpClient α) (socket : Bool) (ret : ConnectReturn) : TcpClient α :=
  let c := c.dropFd
  if socket then
    let link := ({ c.link with fd := freshDescriptor } : LoopConnection α).addEvent.enableEventWriting true
    let c := { c with link, fd := true, openFds := c.openFds + 1, status := .connecting, soError := false }
    match ret with
    | .ok =>
        ({ c with
          socket := .established
          link := { link with fd := link.fd.ceases { epollhup := true } } } : TcpClient α).updateConnectionStatus
    | .inProgress =>
        { c with
          socket := .connecting
          link := { link with fd := link.fd.ceases { epollout := true, epollhup := true } } }
    | .failed => ({ c with socket := .idle } : TcpClient α).onClose
  else ({ c with fd := false } : TcpClient α).onClose

/-- A turn of the loop of `TcpConnection::OnRead`; the message callback follows a read that got something. -/
def readTurn (c : TcpClient α) : ReadReturn → TcpClient α
  | .got => { c with events := c.events ++ [.message] }
  | .eof | .failed => ({ c with reading := false } : TcpClient α).onClose
  | .eagain | .eintr => { c with reading := false }

/-- `OnRead`, up to the loop. -/
def onRead (c : TcpClient α) : TcpClient α :=
  match c.status with
  | .connecting => c.checkError
  | .connected => if c.link.conn.closed then c else { c with reading := true }
  | .init | .disconnected => c

/-- The socket took something. -/
def record (c : TcpClient α) (accepted : List (Region α)) : TcpClient α :=
  { c with events := c.events ++ [.wrote accepted] }

variable [Pointer α]

/-- The loop of `TcpConnection::OnWrite`. -/
def writeLoop (c : TcpClient α) : List WriteReturn → TcpClient α
  | [] => c
  | ret :: rets =>
      let written := c.link.conn.writeLoop [ret.result]
      match ret with
      | .accepted _ =>
          let c := ({ c with link := { c.link with conn := written.conn } } : TcpClient α).record written.accepted
          if written.complete then { c with link := c.link.enableEventWriting false } else c.writeLoop rets
      | .eagain | .eintr => c
      | .failed => c.onClose

/-- `OnWrite`. -/
def onWrite (c : TcpClient α) (rets : List WriteReturn) : TcpClient α :=
  match c.status with
  | .connecting => c.checkError
  | .connected => if c.link.conn.closed || c.link.conn.ioVecList.isEmpty then c else c.writeLoop rets
  | .init | .disconnected => c

/-- The chain of `else if` in `EventLoop::loop`. -/
def dispatch (c : TcpClient α) (ev : Events) (writes : List WriteReturn) : TcpClient α :=
  match handlerOf ev with
  | .onError =>
      -- `getsockopt` takes the error of `fd_`; `OnError` writes to the log and returns
      { c with soError := false, link := { c.link with fd := c.link.fd.ceases { epollerr := true } } }
  | .onClose => c.onClose
  | .onRead => c.onRead
  | .onWrite => c.onWrite writes
  | .none => c

/-- The body of the loop over the events in `EventLoop::loop`. The descriptor is a positive one. -/
def handle (c : TcpClient α) (ev : Events) (writes : List WriteReturn) : TcpClient α :=
  if c.registered then c.dispatch ev writes else c

/-- `Send(const char*, size_t)`. -/
def send (c : TcpClient α) (buf : α) (size : UInt64) (ret : WriteReturn) : TcpClient α :=
  if c.status = .connected then
    let accepted := (c.link.conn.sendInLoop buf size ret.result).accepted
    let c := { c with link := c.link.sendInLoop buf size ret }
    if accepted.isEmpty then c else c.record accepted
  else c

/-- `Send(std::list<BufferNodePtr>&)`. -/
def sendList (c : TcpClient α) (list : List (Region α)) : TcpClient α :=
  if c.status = .connected then { c with link := c.link.sendListInLoop list } else c

/-- What comes next; `none` where it cannot. -/
def step (c : TcpClient α) : ClientAction α → Option (TcpClient α)
  | .connect socket ret => some (c.connectInLoop socket ret)
  | .establish =>
      if c.socket = .connecting then
        some { c with socket := .established, link := { c.link with fd := c.link.fd.becomes { epollout := true } } }
      else none
  | .refuse =>
      if c.socket = .connecting then
        some { c with
          socket := .refused
          soError := true
          link := { c.link with
            fd := c.link.fd.becomes { epollin := true, epollout := true, epollerr := true, epollhup := true } } }
      else none
  | .becomes conditions =>
      if c.socket = .established then
        some { c with
          soError := c.soError || conditions.epollerr
          link := { c.link with fd := c.link.fd.becomes conditions } }
      else none
  | .ceases conditions =>
      if c.socket = .established then some { c with link := { c.link with fd := c.link.fd.ceases conditions } }
      else none
  | .epollWait =>
      if c.link.fd.queued ∧ c.reported = none ∧ c.reading = false then
        some { c with reported := c.link.fd.report.1, link := { c.link with fd := c.link.fd.report.2 } }
      else none
  | .handle writes => c.reported.map fun ev => ({ c with reported := none } : TcpClient α).handle ev writes
  | .stray ev writes => if 0 < c.strays ∧ c.reading = false then some (c.dispatch ev writes) else none
  -- where the message callback has closed the connection `fd_` is -1
  | .readFd ret => if c.reading ∧ (c.fd ∨ ret = .failed) then some (c.readTurn ret) else none
  | .send buf size ret => some (c.send buf size ret)
  | .sendList list => some (c.sendList list)
  | .forceClose => some c.onClose

/-- A call of `Connect` where the client is not registered, once or again after a close, and not by the message
callback. -/
def Allows (c : TcpClient α) : ClientAction α → Prop
  | .connect _ _ => c.registered = false ∧ c.reading = false
  | _ => True

/-- The user calls `Connect` only so. -/
def Proper : TcpClient α → List (ClientAction α) → Prop
  | _, [] => True
  | c, a :: as => c.Allows a ∧ ∀ c', c.step a = some c' → c'.Proper as

end TcpClient
end TmmsServer
