import TmmsServer.Lib.Runs
import TmmsServer.Lib.Watch
import TmmsServer.Net.EventLoop

/-!
# The input of a `TcpConnection`

The socket, its event in the loop and `OnRead`, broken up at `ReadFd`. The peer sends, ends
its side or resets the connection at any time. The buffer is the queue of bytes that
`MsgBuffer` refines, and the message callback retrieves what it likes.

Nothing is sent: a `Send` has the event set anew with `EPOLL_CTL_MOD`, and after it
`EnableWriting(false)` leaves the descriptor level-triggered. The object outlives its
`close_cb_`, and `readv` fails only for what the socket has.
-/
namespace TmmsServer
open Lib.Epoll Lib.Runs

/-- A connection that was just added to its loop. -/
def freshConnection : Watch where
  fd := { conditions := { epollout := true }, interest := some kEventRead }

/-- `waiting` is in the socket, `messageBuffer` has the readable bytes, and `consumed` is what the message callback
retrieved; all of it is in `arrived`. `soError` is the error of a reset that no call has taken. -/
structure TcpInput where
  watch : Watch := freshConnection
  waiting : List UInt8 := []
  finished : Bool := false
  reset : Bool := false
  soError : Bool := false
  messageBuffer : List UInt8 := []
  consumed : List UInt8 := []
  arrived : List UInt8 := []
  closed : Bool := false
  /-- How often `close_cb_` was called. -/
  closes : Nat := 0
  deriving DecidableEq, Repr

inductive InputAction where
  | arrive (bytes : List UInt8)
  | finish
  | reset
  | epollWait
  /-- The loop calls the handler of the event. -/
  | handle
  /-- `ReadFd` reads `n` bytes, if any, and the message callback retrieves `taken`. -/
  | readFd (ret : ReadReturn) (n taken : Nat)
  /-- `ForceClose`, a timeout, or a write that failed. -/
  | close
  deriving DecidableEq, Repr

/-- A read is interrupted. -/
def InputAction.interrupts : InputAction → Bool
  | .readFd .eintr _ _ => true
  | _ => false

namespace TcpInput

/-- A read would not block. -/
def ready (c : TcpInput) : Bool := !c.waiting.isEmpty || c.finished || c.reset

/-- The close callback calls `DelEvent`. -/
def onClose (c : TcpInput) : TcpInput :=
  if c.closed then c
  else { c with closed := true, closes := c.closes + 1, watch := { c.watch with fd := c.watch.fd.unregister } }

def onRead (c : TcpInput) : TcpInput := { c with watch := c.watch.enter }

/-- `getsockopt` takes the error, and `OnError` writes it to the log. -/
def onError (c : TcpInput) : TcpInput :=
  { c with soError := false, watch := { c.watch.skip with fd := c.watch.fd.ceases { epollerr := true } } }

/-- The body of the loop over the events in `EventLoop::loop`, for a positive descriptor: the loop skips 0. It is
registered up to the close. -/
def handle (c : TcpInput) (ev : Events) : TcpInput :=
  if c.closed then { c with watch := c.watch.skip }
  else
    match handlerOf ev with
    | .onError => c.onError
    | .onClose => { c with watch := c.watch.skip }.onClose
    | .onRead => c.onRead
    | .onWrite | .none => { c with watch := c.watch.skip }

/-- `OnRead` ends. -/
def leave (c : TcpInput) : TcpInput := { c with watch := c.watch.leave }

/-- A turn of the loop in `OnRead`, where `ReadFd` can come back so. -/
def readTurn (c : TcpInput) (ret : ReadReturn) (n taken : Nat) : Option TcpInput :=
  if c.closed then if ret = .failed then some c.leave else none
  else
    match ret with
    | .got =>
        if 0 < n ∧ n ≤ c.waiting.length then
          let buffer := c.messageBuffer ++ c.waiting.take n
          let c := { c with waiting := c.waiting.drop n }
          some {
            c with
            messageBuffer := buffer.drop taken
            consumed := c.consumed ++ buffer.take taken
            watch := c.watch.took !c.ready }
        else none
    | .eof => if c.waiting.isEmpty ∧ (c.finished ∨ c.reset ∧ ¬c.soError) then some c.onClose.leave else none
    | .failed =>
        if c.waiting.isEmpty ∧ c.soError ∧ ¬c.finished then some { c with soError := false }.onClose.leave else none
    | .eagain => if c.ready then none else some c.leave
    | .eintr => some c.leave

/-- What comes next; `none` where it cannot. Nothing is sent on the connection. -/
def step (c : TcpInput) : InputAction → Option TcpInput
  | .arrive bytes =>
      if bytes = [] ∨ c.finished ∨ c.reset ∨ c.closed then none
      else
        some {
          c with
          waiting := c.waiting ++ bytes
          arrived := c.arrived ++ bytes
          watch := c.watch.arrives { epollin := true } }
  | .finish =>
      if c.finished ∨ c.reset ∨ c.closed then none
      else some { c with finished := true, watch := c.watch.arrives { epollin := true } }
  | .reset =>
      if c.reset ∨ c.closed then none
      else
        some {
          c with
          reset := true
          soError := true
          watch := c.watch.arrives { epollin := true, epollerr := true, epollhup := true } }
  | .epollWait => c.watch.wait.map fun watch => { c with watch }
  | .handle => c.watch.reported.map c.handle
  | .readFd ret n taken => if c.watch.reading then c.readTurn ret n taken else none
  | .close => some c.onClose

/-- Every byte that came is somewhere, in order. -/
structure Books (c : TcpInput) : Prop where
  bytes : c.consumed ++ c.messageBuffer ++ c.waiting = c.arrived
  closes : c.closes = if c.closed then 1 else 0

/-- What every run keeps of an open connection. -/
structure Sound (c : TcpInput) : Prop where
  interest : c.watch.fd.interest = some kEventRead
  conditions : c.watch.fd.conditions =
    { epollin := c.ready, epollout := true, epollerr := c.soError, epollhup := c.reset }
  resetError : c.soError = true → c.reset = true
  /-- After a reset nothing comes. -/
  reported : ∀ ev, c.watch.reported = some ev → c.watch.reading = false ∧ ev.epollin = true ∧
    (ev.epollerr = true → c.reset = true ∧ c.watch.fd.queued = false)

variable {c c' : TcpInput}

theorem Books.onClose (h : c.Books) : c.onClose.Books := by
  unfold TcpInput.onClose
  split
  · exact h
  next hopen =>
    have hcloses := h.closes
    refine ⟨h.bytes, ?_⟩
    simp_all

theorem Books.readTurn (h : c.Books) {ret : ReadReturn} {n taken : Nat} (hstep : c.readTurn ret n taken = some c') :
    c'.Books := by
  unfold TcpInput.readTurn at hstep
  split at hstep
  · obtain ⟨-, hstep⟩ := Option.ite_none_right_eq_some.mp hstep
    cases hstep
    exact ⟨h.bytes, h.closes⟩
  · cases ret with
    | got =>
        obtain ⟨-, hstep⟩ := Option.ite_none_right_eq_some.mp hstep
        cases hstep
        refine ⟨?_, h.closes⟩
        have hbytes := h.bytes
        dsimp only
        rw [List.append_assoc c.consumed, List.take_append_drop, ← hbytes]
        simp only [List.append_assoc, List.take_append_drop]
    | eof =>
        obtain ⟨-, hstep⟩ := Option.ite_none_right_eq_some.mp hstep
        cases hstep
        exact ⟨h.onClose.bytes, h.onClose.closes⟩
    | failed =>
        obtain ⟨-, hstep⟩ := Option.ite_none_right_eq_some.mp hstep
        cases hstep
        have hbooks : ({ c with soError := false } : TcpInput).onClose.Books := Books.onClose ⟨h.bytes, h.closes⟩
        exact ⟨hbooks.bytes, hbooks.closes⟩
    | eagain =>
        obtain ⟨-, hstep⟩ := Option.ite_none_left_eq_some.mp hstep
        cases hstep
        exact ⟨h.bytes, h.closes⟩
    | eintr =>
        cases hstep
        exact ⟨h.bytes, h.closes⟩

theorem Books.handle (h : c.Books) (ev : Events) : (c.handle ev).Books := by
  unfold TcpInput.handle
  split
  · exact ⟨h.bytes, h.closes⟩
  · cases handlerOf ev with
    | onError => exact ⟨h.bytes, h.closes⟩
    | onClose => exact Books.onClose ⟨h.bytes, h.closes⟩
    | onRead => exact ⟨h.bytes, h.closes⟩
    | onWrite => exact ⟨h.bytes, h.closes⟩
    | none => exact ⟨h.bytes, h.closes⟩

theorem Books.step (h : c.Books) {a : InputAction} (hstep : c.step a = some c') : c'.Books := by
  cases a with
  | arrive bytes =>
      obtain ⟨-, hstep⟩ := Option.ite_none_left_eq_some.mp hstep
      cases hstep
      refine ⟨?_, h.closes⟩
      rw [← h.bytes]
      exact (List.append_assoc _ _ _).symm
  | finish =>
      obtain ⟨-, hstep⟩ := Option.ite_none_left_eq_some.mp hstep
      cases hstep
      exact ⟨h.bytes, h.closes⟩
  | reset =>
      obtain ⟨-, hstep⟩ := Option.ite_none_left_eq_some.mp hstep
      cases hstep
      exact ⟨h.bytes, h.closes⟩
  | epollWait =>
      obtain ⟨watch, -, rfl⟩ := Option.map_eq_some_iff.mp hstep
      exact ⟨h.bytes, h.closes⟩
  | handle =>
      obtain ⟨ev, -, rfl⟩ := Option.map_eq_some_iff.mp hstep
      exact h.handle ev
  | readFd ret n taken =>
      obtain ⟨-, hturn⟩ := Option.ite_none_right_eq_some.mp hstep
      exact h.readTurn hturn
  | close =>
      cases hstep
      exact h.onClose

/-! ### While the connection is open -/

theorem sound_initial : ({} : TcpInput).Sound where
  interest := rfl
  conditions := rfl
  resetError := fun h => by cases h
  reported := fun ev hev => by cases hev

theorem Sound.wanted (h : c.Sound) : c.watch.fd.wanted.has .readable = true := by
  rw [Descriptor.wanted, h.interest]
  rfl

theorem Sound.readable (h : c.Sound) : c.watch.fd.conditions.has .readable = c.ready := by
  rw [h.conditions]
  rfl

theorem onClose_closed (c : TcpInput) : c.onClose.closed = true := by
  unfold TcpInput.onClose
  split
  next hclosed => exact hclosed
  next => rfl

theorem Sound.reportable (h : c.Sound) : c.watch.fd.reportable =
    { epollin := c.ready, epollerr := c.soError, epollhup := c.reset } := by
  rw [Descriptor.reportable, Descriptor.wanted, h.interest, h.conditions]
  generalize c.ready = ready
  generalize c.soError = soError
  generalize c.reset = reset
  cases ready <;> cases soError <;> cases reset <;> rfl

/-- Input comes: the thread is woken. -/
theorem Sound.arrives (h : c.Sound) {d : TcpInput} {P : Prop} {m : Events} (hm : m.has .readable = true)
    (hopen : c.reset = false) (hwatch : d.watch = c.watch.arrives m)
    (hconditions : c.watch.fd.conditions ||| m =
      { epollin := d.ready, epollout := true, epollerr := d.soError, epollhup := d.reset })
    (herror : d.soError = true → d.reset = true) : d.Sound ∧ (d.watch.idle = true → P) := by
  refine ⟨⟨?_, ?_, herror, fun ev hev => ?_⟩, fun hidle => ?_⟩
  · rw [hwatch]
    exact h.interest
  · rw [hwatch]
    exact hconditions
  · rw [hwatch] at hev ⊢
    obtain ⟨hreading, hin, herr⟩ := h.reported ev hev
    refine ⟨hreading, hin, fun hepollerr => ?_⟩
    obtain ⟨hreset, -⟩ := herr hepollerr
    exact absurd (hreset.symm.trans hopen) (by decide)
  · rw [hwatch] at hidle
    exact absurd (hidle.symm.trans (Watch.arrives_not_idle h.wanted hm)) (by decide)

theorem Sound.wait (h : c.Sound) {watch : Watch} (hwait : c.watch.wait = some watch) :
    ({ c with watch } : TcpInput).Sound ∧ (watch.idle = true → c.ready = false) := by
  obtain ⟨hconditions, hinterest, hreading⟩ := Watch.wait_fd hwait
  refine ⟨⟨hinterest.trans h.interest, hconditions.trans h.conditions, h.resetError, fun ev hev => ?_⟩,
    fun hidle => ?_⟩
  · obtain ⟨rfl, hany⟩ := Watch.wait_reported hwait hev
    obtain ⟨⟨-, -, hread⟩, hwatch⟩ := Option.ite_none_right_eq_some.mp hwait
    rw [h.reportable] at hany ⊢
    refine ⟨hreading.trans hread, ?_, fun hepollerr => ?_⟩
    · have hready : c.reset = true → c.ready = true := fun hreset => by simp [TcpInput.ready, hreset]
      cases herror : c.soError with
      | true => exact hready (h.resetError herror)
      | false =>
          cases hreset : c.reset with
          | true => exact hready hreset
          | false => simpa [Events.any, herror, hreset] using hany
    · refine ⟨h.resetError hepollerr, Watch.wait_queued hwait ?_⟩
      rw [Descriptor.edgeTriggered, h.interest]
      rfl
  · have hnone := Watch.wait_idle hwait h.wanted hidle
    rwa [h.readable] at hnone

theorem Sound.onError (h : c.Sound) : c.onError.Sound where
  interest := h.interest
  conditions := by
    change c.watch.fd.conditions &&& ~~~{ epollerr := true } =
      { epollin := c.ready, epollout := true, epollerr := false, epollhup := c.reset }
    rw [h.conditions]
    generalize c.ready = ready
    generalize c.soError = soError
    generalize c.reset = reset
    cases ready <;> cases soError <;> cases reset <;> rfl
  resetError := fun hno => absurd hno Bool.false_ne_true
  reported := fun ev hev => by cases hev

theorem Sound.onRead (h : c.Sound) : c.onRead.Sound where
  interest := h.interest
  conditions := h.conditions
  resetError := h.resetError
  reported := fun ev hev => by cases hev

theorem Sound.leave (h : c.Sound) : c.leave.Sound where
  interest := h.interest
  conditions := h.conditions
  resetError := h.resetError
  reported := fun ev hev => by
    obtain ⟨-, hin, herr⟩ := h.reported ev hev
    exact ⟨rfl, hin, herr⟩

theorem Sound.handle (h : c.Sound) (hopen : c.closed = false) {ev : Events} (hev : c.watch.reported = some ev) :
    (c.handle ev).Sound ∧
      ((c.handle ev).watch.idle = true → (c.handle ev).reset = true ∧ (c.handle ev).soError = false) := by
  obtain ⟨hreading, hin, herr⟩ := h.reported ev hev
  unfold TcpInput.handle
  rw [hopen, if_neg Bool.false_ne_true]
  cases hepollerr : ev.epollerr with
  | true =>
      have honError : handlerOf ev = .onError := by simp [handlerOf, hepollerr]
      rw [honError]
      exact ⟨h.onError, fun _ => ⟨(herr hepollerr).1, rfl⟩⟩
  | false =>
      have honRead : handlerOf ev = .onRead := by simp [handlerOf, hepollerr, hin]
      rw [honRead]
      exact ⟨h.onRead, fun hidle => absurd (hidle.symm.trans c.watch.enter_not_idle) (by decide)⟩

/-- Bytes were read; the socket is readable as long as there is something. -/
theorem Sound.took (h : c.Sound) (hready : c.ready = true) {d : TcpInput} (hreset : d.reset = c.reset)
    (herror : d.soError = c.soError) (hwatch : d.watch = c.watch.took !d.ready) : d.Sound where
  interest := by
    rw [hwatch, Watch.took_interest]
    exact h.interest
  conditions := by
    have hconditions := h.conditions
    rw [hready] at hconditions
    rw [hwatch, hreset, herror]
    generalize d.ready = ready
    cases ready with
    | true => exact hconditions
    | false =>
        simp only [Watch.took, Bool.not_false, if_true, Descriptor.ceases, hconditions]
        generalize c.soError = soError
        generalize c.reset = reset
        cases soError <;> cases reset <;> rfl
  resetError := by
    rw [hreset, herror]
    exact h.resetError
  reported := by
    have hreported := h.reported
    rw [hwatch, hreset]
    generalize d.ready = ready
    cases ready with
    | true => exact hreported
    | false => exact hreported

theorem Sound.readTurn (h : c.Sound) (hopen : c.closed = false) (hreading : c.watch.reading = true)
    {ret : ReadReturn} {n taken : Nat} (hstep : c.readTurn ret n taken = some c') :
    c'.closed = true ∨ c'.Sound ∧ (c'.watch.idle = true → ret = .eintr ∨ c'.ready = false) := by
  unfold TcpInput.readTurn at hstep
  rw [hopen, if_neg Bool.false_ne_true] at hstep
  cases ret with
  | got =>
      obtain ⟨hsome, hstep⟩ := Option.ite_none_right_eq_some.mp hstep
      cases hstep
      obtain ⟨hpos, hle⟩ := hsome
      have hready : c.ready = true := by
        have hne : c.waiting ≠ [] := List.ne_nil_of_length_pos (Nat.lt_of_lt_of_le hpos hle)
        simp [TcpInput.ready, hne]
      refine .inr ⟨h.took hready rfl rfl rfl, fun hidle => ?_⟩
      exact absurd (hidle.symm.trans (Watch.took_not_idle hreading _)) (by decide)
  | eof =>
      obtain ⟨-, hstep⟩ := Option.ite_none_right_eq_some.mp hstep
      cases hstep
      exact .inl c.onClose_closed
  | failed =>
      obtain ⟨-, hstep⟩ := Option.ite_none_right_eq_some.mp hstep
      cases hstep
      exact .inl (onClose_closed _)
  | eagain =>
      obtain ⟨hnot, hstep⟩ := Option.ite_none_left_eq_some.mp hstep
      cases hstep
      exact .inr ⟨h.leave, fun _ => .inr (Bool.eq_false_iff.mpr hnot)⟩
  | eintr =>
      cases hstep
      exact .inr ⟨h.leave, fun _ => .inl rfl⟩

theorem or_input (ready err hup : Bool) :
    ({ epollin := ready, epollout := true, epollerr := err, epollhup := hup } : Events) ||| { epollin := true } =
      { epollin := true, epollout := true, epollerr := err, epollhup := hup } := by
  cases ready <;> cases err <;> cases hup <;> rfl

theorem or_reset (ready err hup : Bool) :
    ({ epollin := ready, epollout := true, epollerr := err, epollhup := hup } : Events) |||
      { epollin := true, epollerr := true, epollhup := true } =
        { epollin := true, epollout := true, epollerr := true, epollhup := true } := by
  cases ready <;> cases err <;> cases hup <;> rfl

/-- A step leaves the connection closed, or what every run keeps; then the thread sleeps for good only where nothing
is there, the read was interrupted, or `OnError` had the reset. -/
theorem Sound.step (h : c.Sound) (hopen : c.closed = false) {a : InputAction} (hstep : c.step a = some c') :
    c'.closed = true ∨ c'.Sound ∧ (c'.watch.idle = true →
      c'.ready = false ∨ a.interrupts = true ∨ c'.reset = true ∧ c'.soError = false) := by
  have hconditions := h.conditions
  cases a with
  | arrive bytes =>
      obtain ⟨hnot, hstep⟩ := Option.ite_none_left_eq_some.mp hstep
      cases hstep
      simp only [not_or, Bool.not_eq_true] at hnot
      obtain ⟨hbytes, -, hreset, -⟩ := hnot
      refine .inr (h.arrives (m := { epollin := true }) rfl hreset rfl ?_ h.resetError)
      rw [hconditions, or_input]
      simp [TcpInput.ready, hbytes]
  | finish =>
      obtain ⟨hnot, hstep⟩ := Option.ite_none_left_eq_some.mp hstep
      cases hstep
      simp only [not_or, Bool.not_eq_true] at hnot
      refine .inr (h.arrives (m := { epollin := true }) rfl hnot.2.1 rfl ?_ h.resetError)
      rw [hconditions, or_input]
      simp [TcpInput.ready]
  | reset =>
      obtain ⟨hnot, hstep⟩ := Option.ite_none_left_eq_some.mp hstep
      cases hstep
      simp only [not_or, Bool.not_eq_true] at hnot
      refine .inr (h.arrives rfl hnot.1 rfl ?_ (fun _ => rfl))
      rw [hconditions, or_reset]
      simp [TcpInput.ready]
  | epollWait =>
      obtain ⟨watch, hwait, rfl⟩ := Option.map_eq_some_iff.mp hstep
      obtain ⟨hsound, hidle⟩ := h.wait hwait
      exact .inr ⟨hsound, fun hsleeps => .inl (hidle hsleeps)⟩
  | handle =>
      obtain ⟨ev, hev, rfl⟩ := Option.map_eq_some_iff.mp hstep
      obtain ⟨hsound, hidle⟩ := h.handle hopen hev
      exact .inr ⟨hsound, fun hsleeps => .inr (.inr (hidle hsleeps))⟩
  | readFd ret n taken =>
      obtain ⟨hreading, hturn⟩ := Option.ite_none_right_eq_some.mp hstep
      rcases h.readTurn hopen hreading hturn with hclosed | ⟨hsound, hidle⟩
      · exact .inl hclosed
      · refine .inr ⟨hsound, fun hsleeps => ?_⟩
        rcases hidle hsleeps with rfl | hempty
        · exact .inr (.inl rfl)
        · exact .inl hempty
  | close =>
      cases hstep
      exact .inl c.onClose_closed

/-- What every run keeps. -/
structure Kept (c : TcpInput) : Prop where
  books : c.Books
  sound : c.closed = false → c.Sound

theorem closed_step (hclosed : c.closed = true) {a : InputAction} (hstep : c.step a = some c') :
    c'.closed = true := by
  cases a with
  | arrive bytes => simp [step, hclosed] at hstep
  | finish => simp [step, hclosed] at hstep
  | reset => simp [step, hclosed] at hstep
  | epollWait =>
      obtain ⟨watch, -, rfl⟩ := Option.map_eq_some_iff.mp hstep
      exact hclosed
  | handle =>
      obtain ⟨ev, -, rfl⟩ := Option.map_eq_some_iff.mp hstep
      rw [TcpInput.handle, if_pos hclosed]
      exact hclosed
  | readFd ret n taken =>
      obtain ⟨-, hturn⟩ := Option.ite_none_right_eq_some.mp hstep
      unfold TcpInput.readTurn at hturn
      rw [if_pos hclosed] at hturn
      obtain ⟨-, hturn⟩ := Option.ite_none_right_eq_some.mp hturn
      cases hturn
      exact hclosed
  | close =>
      cases hstep
      exact c.onClose_closed

theorem run_kept {actions : List InputAction} (h : run step {} actions = some c) : c.Kept := by
  refine run_invariant (fun d a d' hkept hstep => ⟨hkept.books.step hstep, fun hopen => ?_⟩)
    (⟨⟨rfl, rfl⟩, fun _ => sound_initial⟩ : ({} : TcpInput).Kept) h
  cases hclosed : d.closed with
  | true => exact absurd ((closed_step hclosed hstep).symm.trans hopen) (by decide)
  | false =>
      rcases (hkept.sound hclosed).step hclosed hstep with hclosed' | ⟨hsound, -⟩
      · exact absurd (hclosed'.symm.trans hopen) (by decide)
      · exact hsound

/-- Over every run each byte that came is retrieved, buffered or waiting, in order, and the close callback is called
once. Whenever the loop sleeps with nothing to wake it for an open connection, nothing waits and the peer has not
ended, unless the read before was interrupted or the peer's reset went to `OnError`. -/
theorem input_served {actions : List InputAction} (h : run step {} actions = some c) :
    c.consumed ++ c.messageBuffer ++ c.waiting = c.arrived ∧ c.closes = (if c.closed then 1 else 0) ∧
      (c.closed = false → c.watch.idle = true →
        c.ready = false ∨ (∃ a, actions.getLast? = some a ∧ a.interrupts = true) ∨
          c.reset = true ∧ c.soError = false) := by
  obtain ⟨⟨hbytes, hcloses⟩, -⟩ := run_kept h
  refine ⟨hbytes, hcloses, fun hopen hidle => ?_⟩
  rcases List.eq_nil_or_concat actions with rfl | ⟨before, a, rfl⟩
  · cases h
    exact .inl rfl
  · rw [List.concat_eq_append] at h ⊢
    obtain ⟨d, hbefore, hstep⟩ := run_concat_iff.mp h
    cases hclosed : d.closed with
    | true => exact absurd ((closed_step hclosed hstep).symm.trans hopen) (by decide)
    | false =>
        rcases ((run_kept hbefore).sound hclosed).step hclosed hstep with hclosed' | ⟨-, hserved⟩
        · exact absurd (hclosed'.symm.trans hopen) (by decide)
        · rcases hserved hidle with hnone | hinterrupts | hreset
          · exact .inl hnone
          · exact .inr (.inl ⟨a, List.getLast?_concat, hinterrupts⟩)
          · exact .inr (.inr hreset)

/-- After `OnError` nothing can happen to a connection that was reset. -/
theorem onError_quiet (hreset : c.reset = true) (hqueued : c.watch.fd.queued = false)
    (hreading : c.watch.reading = false) {a : InputAction} (ha : a ≠ .close) : c.onError.step a = none := by
  have hreset' : c.onError.reset = true := hreset
  cases a with
  | arrive bytes => simp [step, hreset']
  | finish => simp [step, hreset']
  | reset => simp [step, hreset']
  | epollWait =>
      have hwait : c.onError.watch.wait = none := if_neg fun hall => absurd (hall.1.symm.trans hqueued) (by decide)
      rw [step, hwait]
      rfl
  | handle => rfl
  | readFd ret n taken => exact if_neg fun hread => absurd (hread.symm.trans hreading) (by decide)
  | close => exact absurd rfl ha

/-- A reset that is reported before the handler reads goes to the log: from then on nothing happens to the
connection but a `ForceClose`, a timeout or a write that fails. -/
theorem reset_unnoticed {actions more : List InputAction} (h : run step {} actions = some c)
    (hopen : c.closed = false) {ev : Events} (hev : c.watch.reported = some ev) (herr : ev.epollerr = true)
    (hmore : .close ∉ more) (hrun : run step c (.handle :: more) = some c') :
    more = [] ∧ c'.closed = false ∧ c'.watch.idle = true ∧ c'.waiting = c.waiting ∧ c'.consumed = c.consumed := by
  obtain ⟨hreading, -, hafter⟩ := ((run_kept h).sound hopen).reported ev hev
  obtain ⟨hreset, hqueued⟩ := hafter herr
  have honError : c.handle ev = c.onError := by simp [TcpInput.handle, hopen, handlerOf, herr]
  obtain ⟨d, hhandle, hrest⟩ := run_cons_iff.mp hrun
  obtain ⟨ev', hev', rfl⟩ := Option.map_eq_some_iff.mp hhandle
  obtain rfl : ev = ev' := Option.some.inj (hev.symm.trans hev')
  rw [honError] at hrest
  cases more with
  | nil =>
      cases hrest
      refine ⟨rfl, hopen, ?_, rfl, rfl⟩
      simp [Watch.idle, TcpInput.onError, Descriptor.ceases, Watch.skip, hqueued, hreading]
  | cons a more =>
      obtain ⟨d, hstep, -⟩ := run_cons_iff.mp hrest
      have hnone := onError_quiet hreset hqueued hreading fun ha => hmore (ha ▸ List.mem_cons_self)
      exact absurd (hstep.symm.trans hnone) (Option.some_ne_none d)

/-- Three bytes come, two of them are retrieved in the first read, and the peer ends. -/
theorem input_served_closed : ∃ c, run step {} [.arrive [1, 2, 3], .epollWait, .handle, .readFd .got 2 1, .finish,
      .readFd .got 1 0, .readFd .eof 0 0] = some c ∧
    c.consumed ++ c.messageBuffer ++ c.waiting = [1, 2, 3] ∧ c.closes = 1 := by
  have hrun : (run step {} [.arrive [1, 2, 3], .epollWait, .handle, .readFd .got 2 1, .finish, .readFd .got 1 0,
      .readFd .eof 0 0]).any (fun c => c.closed && c.arrived == [1, 2, 3]) = true := by decide
  obtain ⟨c, hc, hend⟩ := (Option.any_eq_true _ _).mp hrun
  obtain ⟨hclosed, harrived⟩ := (Bool.and_eq_true _ _).mp hend
  obtain ⟨hbytes, hcloses, -⟩ := input_served hc
  exact ⟨c, hc, hbytes.trans (beq_iff_eq.mp harrived), by rw [hcloses, if_pos hclosed]⟩

/-- Two bytes and a reset were there when `epoll_wait` came back. -/
def resetInput : TcpInput where
  watch := {
    fd := {
      conditions := { epollin := true, epollout := true, epollerr := true, epollhup := true }
      interest := some kEventRead }
    reported := some { epollin := true, epollerr := true, epollhup := true } }
  waiting := [1, 2]
  reset := true
  soError := true
  arrived := [1, 2]

theorem reset_unnoticed_bytes : ∃ c', run step resetInput [.handle] = some c' ∧ c'.closed = false ∧
    c'.watch.idle = true ∧ c'.waiting = [1, 2] := by
  have hbefore : run step {} [.arrive [1, 2], .reset, .epollWait] = some resetInput := by decide
  have hrun : run step resetInput [.handle] = some resetInput.onError := by decide
  obtain ⟨-, hopen, hidle, hwaiting, -⟩ := reset_unnoticed hbefore rfl rfl rfl List.not_mem_nil hrun
  exact ⟨_, hrun, hopen, hidle, hwaiting⟩

end TcpInput
end TmmsServer
