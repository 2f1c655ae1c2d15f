import TmmsServer.Lib.Runs
import TmmsServer.Lib.Watch
import TmmsServer.Net.EventLoop
import TmmsServer.Net.MsgBufferQueue
import TmmsServer.Rtmp.ClientUrl

/-!
# The input of a `UdpSocket`

`OnRead` takes one datagram after the other into the same buffer, shows it to the message
callback and empties the buffer. Datagrams come at any time, and for a socket that is
connected an error may.
-/
namespace TmmsServer
open Lib.Epoll Lib.Runs

/-- Where a datagram comes from, the address as `inet_ntop` writes it. -/
inductive SockAddr where
  | inet (ip : List UInt8) (port : UInt16)
  | inet6 (ip : List UInt8) (port : UInt16)
  deriving DecidableEq, Repr

/-- `peeraddr`, and its `is_ipv6_`. -/
def SockAddr.peerAddr : SockAddr → InetAddress × Bool
  | .inet ip port => ((({} : InetAddress).setAddr ip).setPort port, false)
  | .inet6 ip port => ((({} : InetAddress).setAddr ip).setPort port, true)

structure Datagram where
  sockAddr : SockAddr
  data : List UInt8
  deriving DecidableEq, Repr

/-- What `message_cb_` is called with. -/
structure UdpMessage where
  peerAddr : InetAddress × Bool
  bytes : List UInt8
  deriving DecidableEq, Repr

/-- `message_buffer_size_`. -/
def messageBufferSize : Nat := 65535

/-- The length of a datagram has 16 bits and counts a header of 8 bytes. -/
def kMaxDatagram : Nat := 65527

/-- What `recvfrom` comes back with. -/
inductive RecvfromReturn where
  | got
  | eagain
  | eintr
  | failed
  deriving DecidableEq, Repr

/-- The socket after `Open` or `ConnectInLoop`. -/
def boundSocket : Watch where
  fd := { conditions := { epollout := true }, interest := some kEventRead }

/-- The datagrams that came are in `arrived`, those in the socket in `waiting`; `soError` is an error no call has
taken. -/
structure UdpInput where
  messageBuffer : MsgBuffer
  watch : Watch := boundSocket
  waiting : List Datagram := []
  soError : Bool := false
  messages : List UdpMessage := []
  arrived : List Datagram := []
  closed : Bool := false
  /-- How often `close_cb_` was called. -/
  closes : Nat := 0
  fault : Option Fault := none
  deriving DecidableEq

inductive UdpAction where
  | arrive (d : Datagram)
  /-- A datagram that was sent came back with an error. -/
  | refused
  | epollWait
  /-- The loop calls the handler of the event. -/
  | handle
  /-- A turn of the loop in `OnRead`; the message callback retrieves `taken`. -/
  | recvfrom (ret : RecvfromReturn) (taken : Nat)
  /-- `ForceClose`, a timeout, `Stop`, or a `sendto` that failed. -/
  | close
  deriving DecidableEq, Repr

/-- A read is interrupted. -/
def UdpAction.interrupts : UdpAction → Bool
  | .recvfrom .eintr _ => true
  | _ => false

namespace UdpInput

/-- The constructor. -/
def initial : Checked UdpInput := do
  let messageBuffer ← MsgBuffer.new messageBufferSize
  return { messageBuffer }

def onClose (u : UdpInput) : UdpInput :=
  if u.closed then u
  else { u with closed := true, closes := u.closes + 1, watch := { u.watch with fd := u.watch.fd.unregister } }

def onRead (u : UdpInput) : UdpInput := { u with watch := u.watch.enter }

/-- `getsockopt` takes the error before the loop calls `OnError`, which closes. -/
def onError (u : UdpInput) : UdpInput := { u with soError := false, watch := u.watch.skip }.onClose

/-- The body of the loop over the events in `EventLoop::loop`, for a positive descriptor that is registered up to the
close. -/
def handle (u : UdpInput) (ev : Events) : UdpInput :=
  if u.closed then { u with watch := u.watch.skip }
  else
    match handlerOf ev with
    | .onError => u.onError
    | .onClose => { u with watch := u.watch.skip }.onClose
    | .onRead => u.onRead
    | .onWrite | .none => { u with watch := u.watch.skip }

/-- `OnRead` ends. -/
def leave (u : UdpInput) : UdpInput := { u with watch := u.watch.leave }

/-- A datagram that is not empty: what the callback reads, and the buffer for the next. -/
def receive (m : MsgBuffer) (data : List UInt8) (taken : Nat) : Checked (List UInt8 × MsgBuffer) := do
  let m ← m.hasWritten (data.take messageBufferSize)
  let shown ← m.peek
  let m ← m.retrieve taken
  let m ← m.retrieveAll
  return (shown, m)

def onDatagram (u : UdpInput) (d : Datagram) (taken : Nat) : UdpInput :=
  match receive u.messageBuffer d.data taken with
  | .error e => { u with fault := some e }
  | .ok (bytes, messageBuffer) =>
      { u with messageBuffer, messages := u.messages ++ [{ peerAddr := d.sockAddr.peerAddr, bytes }] }

/-- A turn of the loop in `OnRead`, where `recvfrom` can come back so: an error comes before the datagrams. -/
def readTurn (u : UdpInput) (ret : RecvfromReturn) (taken : Nat) : Option UdpInput :=
  if u.closed then if ret = .failed then some u.leave else none
  else
    match ret with
    | .got =>
        match u.waiting with
        | [] => none
        | d :: rest =>
            if u.soError then none
            else
              let u := { u with waiting := rest, watch := u.watch.took rest.isEmpty }
              -- neither branch is for an empty datagram
              some (if d.data.isEmpty then u else u.onDatagram d taken)
    | .failed => if u.soError then some { u with soError := false }.onClose.leave else none
    | .eagain => if u.waiting.isEmpty ∧ ¬u.soError then some u.leave else none
    | .eintr => some u.leave

def step (u : UdpInput) : UdpAction → Option UdpInput
  | .arrive d =>
      if u.closed ∨ kMaxDatagram < d.data.length then none
      else
        some {
          u with
          waiting := u.waiting ++ [d]
          arrived := u.arrived ++ [d]
          watch := u.watch.arrives { epollin := true } }
  | .refused =>
      if u.closed then none
      else some { u with soError := true, watch := u.watch.arrives { epollerr := true } }
  | .epollWait => u.watch.wait.map fun watch => { u with watch }
  | .handle => u.watch.reported.map u.handle
  | .recvfrom ret taken => if u.watch.reading then u.readTurn ret taken else none
  | .close => some u.onClose

/-- The messages that datagrams make: an empty one makes none. -/
def shown (ds : List Datagram) : List UdpMessage :=
  (ds.filter (!·.data.isEmpty)).map fun d => { peerAddr := d.sockAddr.peerAddr, bytes := d.data }

@[simp] theorem shown_nil : shown [] = [] := rfl

@[simp] theorem shown_append (ds es : List Datagram) : shown (ds ++ es) = shown ds ++ shown es := by
  simp [shown]

theorem shown_cons (d : Datagram) (ds : List Datagram) :
    shown (d :: ds) = (if d.data.isEmpty then [] else [⟨d.sockAddr.peerAddr, d.data⟩]) ++ shown ds := by
  cases hdata : d.data.isEmpty <;> simp [shown, hdata]

/-! ### The buffer -/

/-- The buffer of the constructor, empty. -/
structure Empty (m : MsgBuffer) : Prop where
  initCap : m.initCap = messageBufferSize
  length : m.buffer.length = messageBufferSize + kBufferOffset
  head : m.head = kBufferOffset
  tail : m.tail = kBufferOffset

variable {m : MsgBuffer}

theorem Empty.layout (h : Empty m) :
    m.Layout (m.buffer.take kBufferOffset) [] (m.buffer.drop kBufferOffset) where
  buffer := (List.take_append_drop _ _).symm
  head := by
    rw [List.length_take, h.length, h.head]
    rfl
  tail := by
    rw [List.length_take, h.length, h.tail]
    rfl
  cap_ge := by
    rw [h.initCap]
    decide
  cap_lt := by
    rw [h.initCap]
    decide
  size_ge := by
    rw [h.length]
    decide
  size_lt := by
    rw [h.length]
    decide

theorem initial_ok : ∃ m, initial = .ok { messageBuffer := m } ∧ Empty m := by
  refine ⟨{
    head := kBufferOffset
    initCap := messageBufferSize
    buffer := List.replicate (messageBufferSize + kBufferOffset) 0
    tail := kBufferOffset }, rfl, rfl, List.length_replicate, rfl, rfl⟩

theorem empty_retrieveAll (hcap : m.initCap = messageBufferSize)
    (hlength : m.buffer.length = messageBufferSize + kBufferOffset) :
    ∃ m', m.retrieveAll = .ok m' ∧ Empty m' := by
  have hrun : m.retrieveAll = .ok { m with tail := kBufferOffset, head := kBufferOffset } := by
    unfold MsgBuffer.retrieveAll
    rw [hcap, hlength, if_neg (by decide)]
  exact ⟨_, hrun, hcap, hlength, rfl, rfl⟩

/-- A datagram is shown whole and alone, and the buffer is empty again. -/
theorem receive_spec (h : Empty m) {data : List UInt8} (hdata : data.length ≤ kMaxDatagram) (taken : Nat) :
    ∃ m', receive m data taken = .ok (data, m') ∧ Empty m' := by
  have htake : data.take messageBufferSize = data :=
    List.take_of_length_le (Nat.le_trans hdata (by decide))
  have hroom : data.length ≤ (m.buffer.drop kBufferOffset).length := by
    rw [List.length_drop, h.length]
    exact Nat.le_trans hdata (by decide)
  obtain ⟨written, hwrite, hlayout⟩ := h.layout.hasWritten hroom
  have hcap : written.initCap = messageBufferSize := by
    obtain ⟨buffer, -, hwritten⟩ := of_bind_ok hwrite
    cases hwritten
    exact h.initCap
  have hlength : written.buffer.length = messageBufferSize + kBufferOffset := by
    have hparts := hlayout.length
    have hfront : (m.buffer.take kBufferOffset).length = kBufferOffset := h.layout.head.symm.trans h.head
    rw [hfront, List.nil_append, List.length_drop] at hparts
    rw [← hparts, Nat.add_assoc, Nat.add_sub_cancel' hroom, List.length_drop, h.length]
    rfl
  have hretrieve : ∃ left, written.retrieve taken = .ok left ∧ left.initCap = messageBufferSize ∧
      left.buffer.length = messageBufferSize + kBufferOffset := by
    unfold MsgBuffer.retrieve
    split
    · obtain ⟨left, hleft, hempty⟩ := empty_retrieveAll hcap hlength
      exact ⟨left, hleft, hempty.initCap, hempty.length⟩
    · exact ⟨_, rfl, hcap, hlength⟩
  obtain ⟨left, hleft, hcapLeft, hlengthLeft⟩ := hretrieve
  obtain ⟨m', hm', hempty⟩ := empty_retrieveAll hcapLeft hlengthLeft
  refine ⟨m', ?_, hempty⟩
  rw [receive, htake, hwrite, ok_bind, hlayout.peek, ok_bind, hleft, ok_bind, hm', ok_bind]
  rfl

/-! ### What every run keeps -/

/-- Every datagram that came is shown or waits, in order. -/
structure Books (u : UdpInput) : Prop where
  buffer : Empty u.messageBuffer
  messages : u.messages ++ shown u.waiting = shown u.arrived
  small : ∀ d ∈ u.waiting, d.data.length ≤ kMaxDatagram
  closes : u.closes = if u.closed then 1 else 0
  fault : u.fault = none

/-- Of a socket that is open. -/
structure Sound (u : UdpInput) : Prop where
  interest : u.watch.fd.interest = some kEventRead
  conditions : u.watch.fd.conditions = { epollin := !u.waiting.isEmpty, epollout := true, epollerr := u.soError }
  reported : ∀ ev, u.watch.reported = some ev → handlerOf ev = .onError ∨ handlerOf ev = .onRead

variable {u u' : UdpInput}

theorem books_initial (h : Empty m) : ({ messageBuffer := m } : UdpInput).Books where
  buffer := h
  messages := rfl
  small := fun _ hd => absurd hd List.not_mem_nil
  closes := rfl
  fault := rfl

theorem onClose_closed (u : UdpInput) : u.onClose.closed = true := by
  unfold onClose
  split
  next hclosed => exact hclosed
  next => rfl

theorem Books.onClose (h : u.Books) : u.onClose.Books := by
  unfold UdpInput.onClose
  split
  · exact h
  next hopen =>
    have hcloses := h.closes
    refine ⟨h.buffer, h.messages, h.small, ?_, h.fault⟩
    simp_all

theorem Books.handle (h : u.Books) (ev : Events) : (u.handle ev).Books := by
  have hskip : ({ u with watch := u.watch.skip } : UdpInput).Books :=
    ⟨h.buffer, h.messages, h.small, h.closes, h.fault⟩
  unfold UdpInput.handle
  split
  · exact hskip
  · cases handlerOf ev with
    | onError => exact Books.onClose ⟨h.buffer, h.messages, h.small, h.closes, h.fault⟩
    | onClose => exact hskip.onClose
    | onRead => exact ⟨h.buffer, h.messages, h.small, h.closes, h.fault⟩
    | onWrite => exact hskip
    | none => exact hskip

theorem onDatagram_eq {d : Datagram} {taken : Nat} {m' : MsgBuffer}
    (h : receive u.messageBuffer d.data taken = .ok (d.data, m')) :
    u.onDatagram d taken =
      { u with messageBuffer := m', messages := u.messages ++ [⟨d.sockAddr.peerAddr, d.data⟩] } := by
  simp only [onDatagram, h]

/-- The first datagram is taken: an empty one is passed over, another one is shown. -/
theorem Books.got (h : u.Books) {d : Datagram} {rest : List Datagram} (hwaiting : u.waiting = d :: rest)
    (watch : Watch) (taken : Nat) :
    (if d.data.isEmpty then { u with waiting := rest, watch }
      else ({ u with waiting := rest, watch } : UdpInput).onDatagram d taken).Books := by
  have hmessages := h.messages
  rw [hwaiting, shown_cons] at hmessages
  have hrest : ∀ e ∈ rest, e.data.length ≤ kMaxDatagram := fun e he =>
    h.small e (hwaiting ▸ List.mem_cons_of_mem d he)
  cases hdata : d.data.isEmpty with
  | true =>
      rw [hdata] at hmessages
      exact ⟨h.buffer, hmessages, hrest, h.closes, h.fault⟩
  | false =>
      have hsmall : d.data.length ≤ kMaxDatagram := h.small d (hwaiting ▸ List.mem_cons_self)
      obtain ⟨m', hreceive, hempty⟩ := receive_spec h.buffer hsmall taken
      rw [hdata, ← List.append_assoc] at hmessages
      have hmore : receive ({ u with waiting := rest, watch } : UdpInput).messageBuffer d.data taken =
          .ok (d.data, m') := hreceive
      rw [if_neg Bool.false_ne_true, onDatagram_eq hmore]
      exact ⟨hempty, hmessages, hrest, h.closes, h.fault⟩

theorem Books.readTurn (h : u.Books) {ret : RecvfromReturn} {taken : Nat}
    (hstep : u.readTurn ret taken = some u') : u'.Books := by
  have hleave : u.leave.Books := ⟨h.buffer, h.messages, h.small, h.closes, h.fault⟩
  unfold UdpInput.readTurn at hstep
  split at hstep
  · obtain ⟨-, hstep⟩ := Option.ite_none_right_eq_some.mp hstep
    cases hstep
    exact hleave
  · cases ret with
    | got =>
        cases hwaiting : u.waiting with
        | nil => simp [hwaiting] at hstep
        | cons d rest =>
            simp only [hwaiting] at hstep
            obtain ⟨-, hstep⟩ := Option.ite_none_left_eq_some.mp hstep
            cases hstep
            exact h.got hwaiting _ taken
    | failed =>
        obtain ⟨-, hstep⟩ := Option.ite_none_right_eq_some.mp hstep
        cases hstep
        have hbooks : ({ u with soError := false } : UdpInput).onClose.Books :=
          Books.onClose ⟨h.buffer, h.messages, h.small, h.closes, h.fault⟩
        exact ⟨hbooks.buffer, hbooks.messages, hbooks.small, hbooks.closes, hbooks.fault⟩
    | eagain =>
        obtain ⟨-, hstep⟩ := Option.ite_none_right_eq_some.mp hstep
        cases hstep
        exact hleave
    | eintr =>
        cases hstep
        exact hleave

theorem Books.step (h : u.Books) {a : UdpAction} (hstep : u.step a = some u') : u'.Books := by
  cases a with
  | arrive d =>
      obtain ⟨hnot, hstep⟩ := Option.ite_none_left_eq_some.mp hstep
      cases hstep
      rw [not_or, Nat.not_lt] at hnot
      refine ⟨h.buffer, ?_, fun e he => ?_, h.closes, h.fault⟩
      · rw [shown_append, shown_append, ← List.append_assoc, h.messages]
      · rcases List.mem_append.mp he with hold | hnew
        · exact h.small e hold
        · rw [List.mem_singleton.mp hnew]
          exact hnot.2
  | refused =>
      obtain ⟨-, hstep⟩ := Option.ite_none_left_eq_some.mp hstep
      cases hstep
      exact ⟨h.buffer, h.messages, h.small, h.closes, h.fault⟩
  | epollWait =>
      obtain ⟨watch, -, rfl⟩ := Option.map_eq_some_iff.mp hstep
      exact ⟨h.buffer, h.messages, h.small, h.closes, h.fault⟩
  | handle =>
      obtain ⟨ev, -, rfl⟩ := Option.map_eq_some_iff.mp hstep
      exact h.handle ev
  | recvfrom ret taken =>
      obtain ⟨-, hturn⟩ := Option.ite_none_right_eq_some.mp hstep
      exact h.readTurn hturn
  | close =>
      cases hstep
      exact h.onClose

/-! ### While the socket is open -/

theorem sound_initial : ({ messageBuffer := m } : UdpInput).Sound where
  interest := rfl
  conditions := rfl
  reported := fun ev hev => by cases hev

theorem Sound.wanted (h : u.Sound) : u.watch.fd.wanted = { kEventRead with epollerr := true, epollhup := true } := by
  rw [Descriptor.wanted, h.interest]
  rfl

theorem Sound.readable (h : u.Sound) : u.watch.fd.wanted.has .readable = true := by
  rw [h.wanted]
  rfl

theorem Sound.error (h : u.Sound) : u.watch.fd.wanted.has .error = true := by
  rw [h.wanted]
  rfl

theorem Sound.reportable (h : u.Sound) :
    u.watch.fd.reportable = { epollin := !u.waiting.isEmpty, epollerr := u.soError } := by
  rw [Descriptor.reportable, h.wanted, h.conditions]
  generalize u.waiting.isEmpty = empty
  generalize u.soError = soError
  cases empty <;> cases soError <;> rfl

theorem handlerOf_reported {readable soError : Bool}
    (h : ({ epollin := readable, epollerr := soError } : Events).any = true) :
    handlerOf { epollin := readable, epollerr := soError } = .onError ∨
      handlerOf { epollin := readable, epollerr := soError } = .onRead := by
  cases soError with
  | true => exact .inl rfl
  | false =>
      cases readable with
      | true => exact .inr rfl
      | false => exact absurd h Bool.false_ne_true

theorem Sound.wait (h : u.Sound) {watch : Watch} (hwait : u.watch.wait = some watch) :
    ({ u with watch } : UdpInput).Sound ∧ (watch.idle = true → u.waiting = [] ∧ u.soError = false) := by
  obtain ⟨hconditions, hinterest, -⟩ := Watch.wait_fd hwait
  refine ⟨⟨hinterest.trans h.interest, hconditions.trans h.conditions, fun ev hev => ?_⟩, fun hidle => ?_⟩
  · obtain ⟨rfl, hany⟩ := Watch.wait_reported hwait hev
    rw [h.reportable] at hany ⊢
    exact handlerOf_reported hany
  · have hnone := Watch.wait_idle hwait h.readable hidle
    have hquiet := Watch.wait_idle hwait h.error hidle
    rw [h.conditions] at hnone hquiet
    exact ⟨by simpa [Events.has] using hnone, hquiet⟩

theorem Sound.handle (h : u.Sound) (hopen : u.closed = false) {ev : Events} (hev : u.watch.reported = some ev) :
    (u.handle ev).closed = true ∨ (u.handle ev).Sound ∧ (u.handle ev).watch.idle = false := by
  unfold UdpInput.handle
  rw [hopen, if_neg Bool.false_ne_true]
  rcases h.reported ev hev with honError | honRead
  · rw [honError]
    exact .inl (onClose_closed _)
  · rw [honRead]
    refine .inr ⟨⟨h.interest, h.conditions, fun ev' hev' => by cases hev'⟩, u.watch.enter_not_idle⟩

theorem Sound.leave (h : u.Sound) : u.leave.Sound := ⟨h.interest, h.conditions, h.reported⟩

theorem onDatagram_watch (u : UdpInput) (d : Datagram) (taken : Nat) :
    (u.onDatagram d taken).watch = u.watch ∧ (u.onDatagram d taken).waiting = u.waiting ∧
      (u.onDatagram d taken).soError = u.soError := by
  unfold onDatagram
  split
  · exact ⟨rfl, rfl, rfl⟩
  · exact ⟨rfl, rfl, rfl⟩

/-- A datagram was taken; the socket is readable as long as there is another. -/
theorem Sound.took (h : u.Sound) {d : Datagram} {rest : List Datagram} (hwaiting : u.waiting = d :: rest)
    (hwatch : u'.watch = u.watch.took rest.isEmpty) (hrest : u'.waiting = rest) (herror : u'.soError = u.soError) :
    u'.Sound where
  interest := by
    rw [hwatch, Watch.took_interest]
    exact h.interest
  conditions := by
    have hconditions := h.conditions
    rw [hwaiting] at hconditions
    rw [hwatch, hrest, herror]
    cases rest with
    | nil =>
        simp only [Watch.took, List.isEmpty_nil, if_true, Descriptor.ceases, hconditions]
        generalize u.soError = soError
        cases soError <;> rfl
    | cons e rest => exact hconditions
  reported := by
    have hreported := h.reported
    rw [hwatch]
    cases rest with
    | nil => exact hreported
    | cons e rest => exact hreported

theorem Sound.readTurn (h : u.Sound) (hopen : u.closed = false) (hreading : u.watch.reading = true)
    {ret : RecvfromReturn} {taken : Nat} (hstep : u.readTurn ret taken = some u') :
    u'.closed = true ∨
      u'.Sound ∧ (u'.watch.idle = true → ret = .eintr ∨ u'.waiting = [] ∧ u'.soError = false) := by
  unfold UdpInput.readTurn at hstep
  rw [hopen, if_neg Bool.false_ne_true] at hstep
  cases ret with
  | got =>
      cases hwaiting : u.waiting with
      | nil => simp [hwaiting] at hstep
      | cons d rest =>
          simp only [hwaiting] at hstep
          obtain ⟨-, hstep⟩ := Option.ite_none_left_eq_some.mp hstep
          have hafter : u'.watch = u.watch.took rest.isEmpty ∧ u'.waiting = rest ∧ u'.soError = u.soError := by
            cases hstep
            split
            · exact ⟨rfl, rfl, rfl⟩
            · exact onDatagram_watch _ d taken
          obtain ⟨hwatch, hrest, herror⟩ := hafter
          refine .inr ⟨h.took hwaiting hwatch hrest herror, fun hidle => ?_⟩
          rw [hwatch] at hidle
          exact absurd (hidle.symm.trans (Watch.took_not_idle hreading _)) (by decide)
  | failed =>
      obtain ⟨-, hstep⟩ := Option.ite_none_right_eq_some.mp hstep
      cases hstep
      exact .inl (onClose_closed _)
  | eagain =>
      obtain ⟨⟨hempty, hquiet⟩, hstep⟩ := Option.ite_none_right_eq_some.mp hstep
      cases hstep
      exact .inr ⟨h.leave, fun _ => .inr ⟨List.isEmpty_iff.mp hempty, Bool.eq_false_iff.mpr hquiet⟩⟩
  | eintr =>
      cases hstep
      exact .inr ⟨h.leave, fun _ => .inl rfl⟩

/-- A step leaves the socket closed, or what every run keeps; then the thread sleeps for good only where nothing is
there or the read was interrupted. -/
theorem Sound.step (h : u.Sound) (hopen : u.closed = false) {a : UdpAction} (hstep : u.step a = some u') :
    u'.closed = true ∨
      u'.Sound ∧ (u'.watch.idle = true → u'.waiting = [] ∧ u'.soError = false ∨ a.interrupts = true) := by
  cases a with
  | arrive d =>
      obtain ⟨-, hstep⟩ := Option.ite_none_left_eq_some.mp hstep
      cases hstep
      refine .inr ⟨⟨h.interest, ?_, h.reported⟩, fun hidle => ?_⟩
      · have hsome : (u.waiting ++ [d]).isEmpty = false := by simp
        simp only [Watch.arrives, Descriptor.arrives, h.conditions, hsome]
        generalize u.waiting.isEmpty = empty
        generalize u.soError = soError
        cases empty <;> cases soError <;> rfl
      · exact absurd (hidle.symm.trans (Watch.arrives_not_idle h.readable rfl)) (by decide)
  | refused =>
      obtain ⟨-, hstep⟩ := Option.ite_none_left_eq_some.mp hstep
      cases hstep
      refine .inr ⟨⟨h.interest, ?_, h.reported⟩, fun hidle => ?_⟩
      · simp only [Watch.arrives, Descriptor.arrives, h.conditions]
        generalize u.waiting.isEmpty = empty
        generalize u.soError = soError
        cases empty <;> cases soError <;> rfl
      · exact absurd (hidle.symm.trans (Watch.arrives_not_idle h.error rfl)) (by decide)
  | epollWait =>
      obtain ⟨watch, hwait, rfl⟩ := Option.map_eq_some_iff.mp hstep
      obtain ⟨hsound, hidle⟩ := h.wait hwait
      exact .inr ⟨hsound, fun hsleeps => .inl (hidle hsleeps)⟩
  | handle =>
      obtain ⟨ev, hev, rfl⟩ := Option.map_eq_some_iff.mp hstep
      rcases h.handle hopen hev with hclosed | ⟨hsound, hbusy⟩
      · exact .inl hclosed
      · exact .inr ⟨hsound, fun hidle => absurd (hidle.symm.trans hbusy) (by decide)⟩
  | recvfrom ret taken =>
      obtain ⟨hreading, hturn⟩ := Option.ite_none_right_eq_some.mp hstep
      rcases h.readTurn hopen hreading hturn with hclosed | ⟨hsound, hidle⟩
      · exact .inl hclosed
      · refine .inr ⟨hsound, fun hsleeps => ?_⟩
        rcases hidle hsleeps with rfl | hnone
        · exact .inr rfl
        · exact .inl hnone
  | close =>
      cases hstep
      exact .inl u.onClose_closed

theorem closed_step (hclosed : u.closed = true) {a : UdpAction} (hstep : u.step a = some u') :
    u'.closed = true := by
  cases a with
  | arrive d => simp [step, hclosed] at hstep
  | refused => simp [step, hclosed] at hstep
  | epollWait =>
      obtain ⟨watch, -, rfl⟩ := Option.map_eq_some_iff.mp hstep
      exact hclosed
  | handle =>
      obtain ⟨ev, -, rfl⟩ := Option.map_eq_some_iff.mp hstep
      rw [UdpInput.handle, if_pos hclosed]
      exact hclosed
  | recvfrom ret taken =>
      obtain ⟨-, hturn⟩ := Option.ite_none_right_eq_some.mp hstep
      unfold UdpInput.readTurn at hturn
      rw [if_pos hclosed] at hturn
      obtain ⟨-, hturn⟩ := Option.ite_none_right_eq_some.mp hturn
      cases hturn
      exact hclosed
  | close =>
      cases hstep
      exact u.onClose_closed

/-- What every run keeps. -/
structure Kept (u : UdpInput) : Prop where
  books : u.Books
  sound : u.closed = false → u.Sound

theorem run_kept (hm : Empty m) {actions : List UdpAction}
    (h : run step { messageBuffer := m } actions = some u) : u.Kept := by
  refine run_invariant (fun v a v' hkept hstep => ⟨hkept.books.step hstep, fun hopen => ?_⟩)
    (⟨books_initial hm, fun _ => sound_initial⟩ : ({ messageBuffer := m } : UdpInput).Kept) h
  cases hclosed : v.closed with
  | true => exact absurd ((closed_step hclosed hstep).symm.trans hopen) (by decide)
  | false =>
      rcases (hkept.sound hclosed).step hclosed hstep with hclosed' | ⟨hsound, -⟩
      · exact absurd (hclosed'.symm.trans hopen) (by decide)
      · exact hsound

/-- Over every run no byte is written or read outside the buffer. The callback is called for the datagrams that are
not empty, for each by itself, whole and with the address it came from, in the order they came, and the close
callback once. Whenever the loop sleeps with nothing to wake it for an open socket, no datagram waits and no error,
unless the read before was interrupted. -/
theorem datagrams_served {first : UdpInput} (hfirst : initial = .ok first) {actions : List UdpAction}
    (h : run step first actions = some u) :
    u.fault = none ∧ u.messages ++ shown u.waiting = shown u.arrived ∧ u.closes = (if u.closed then 1 else 0) ∧
      (u.closed = false → u.watch.idle = true →
        u.waiting = [] ∧ u.soError = false ∨ ∃ a, actions.getLast? = some a ∧ a.interrupts = true) := by
  obtain ⟨m, hinitial, hm⟩ := initial_ok
  obtain rfl := Except.ok.inj (hinitial.symm.trans hfirst)
  obtain ⟨hbooks, -⟩ := run_kept hm h
  refine ⟨hbooks.fault, hbooks.messages, hbooks.closes, fun hopen hidle => ?_⟩
  rcases List.eq_nil_or_concat actions with rfl | ⟨before, a, rfl⟩
  · cases h
    exact .inl ⟨rfl, rfl⟩
  · rw [List.concat_eq_append] at h ⊢
    obtain ⟨v, hbefore, hstep⟩ := run_concat_iff.mp h
    cases hclosed : v.closed with
    | true => exact absurd ((closed_step hclosed hstep).symm.trans hopen) (by decide)
    | false =>
        rcases ((run_kept hm hbefore).sound hclosed).step hclosed hstep with hclosed' | ⟨-, hserved⟩
        · exact absurd (hclosed'.symm.trans hopen) (by decide)
        · rcases hserved hidle with hnone | hinterrupts
          · exact .inl hnone
          · exact .inr ⟨a, List.getLast?_concat, hinterrupts⟩

/-- Three datagrams, the second of them empty. -/
def threeDatagrams : List Datagram :=
  [⟨.inet (text "10.0.0.1") 5004, [1, 2]⟩, ⟨.inet (text "10.0.0.1") 5004, []⟩, ⟨.inet6 (text "::1") 9, [3]⟩]

/-- They are shown in one call of `OnRead`; the callback retrieves part of the first. -/
theorem datagrams_served_three : ∃ first u, initial = .ok first ∧
    run step first (threeDatagrams.map .arrive ++ [.epollWait, .handle, .recvfrom .got 1, .recvfrom .got 0,
      .recvfrom .got 0, .recvfrom .eagain 0]) = some u ∧
    u.messages = [⟨(⟨text "10.0.0.1", text "5004"⟩, false), [1, 2]⟩, ⟨(⟨text "::1", text "9"⟩, true), [3]⟩] := by
  obtain ⟨m, hinitial, hm⟩ := initial_ok
  have hsmall : ∀ d ∈ threeDatagrams, d.data.length ≤ kMaxDatagram := by decide
  obtain ⟨m₁, hreceive₁, hm₁⟩ := receive_spec hm (hsmall _ List.mem_cons_self) 1
  obtain ⟨m₂, hreceive₂, -⟩ := receive_spec hm₁ (hsmall ⟨.inet6 (text "::1") 9, [3]⟩ (by decide)) 0
  have hrun : ∃ u, run step { messageBuffer := m } (threeDatagrams.map .arrive ++ [.epollWait, .handle,
      .recvfrom .got 1, .recvfrom .got 0, .recvfrom .got 0, .recvfrom .eagain 0]) = some u ∧
      u.waiting = [] ∧ u.arrived = threeDatagrams := by
    refine ⟨_, run_cons_iff.mpr ⟨_, rfl, run_cons_iff.mpr ⟨_, rfl, run_cons_iff.mpr ⟨_, rfl, run_cons_iff.mpr
      ⟨_, rfl, run_cons_iff.mpr ⟨_, rfl, run_cons_iff.mpr ⟨_, (congrArg some (onDatagram_eq hreceive₁)),
        run_cons_iff.mpr ⟨_, rfl, run_cons_iff.mpr ⟨_, congrArg some (onDatagram_eq hreceive₂),
          run_cons_iff.mpr ⟨_, rfl, rfl⟩⟩⟩⟩⟩⟩⟩⟩⟩, rfl, rfl⟩
  obtain ⟨u, hu, hwaiting, harrived⟩ := hrun
  obtain ⟨-, hmessages, -⟩ := datagrams_served hinitial hu
  rw [hwaiting, shown_nil, List.append_nil, harrived] at hmessages
  exact ⟨_, u, hinitial, hu, hmessages.trans (by decide)⟩

end UdpInput
end TmmsServer
