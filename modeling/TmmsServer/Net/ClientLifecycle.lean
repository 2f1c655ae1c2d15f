import TmmsServer.Net.TcpClient
import TmmsServer.Net.WriteWakeup

/-!
# The life of a `TcpClient`

What the user of a client sees over any run: that it is connected, data, that it is closed,
in this order and each call once; after a close a further `Connect` opens descriptors that
nobody closes.
-/
namespace TmmsServer
open Lib.Gather Lib.Epoll Lib.Runs

namespace LoopConnection
variable {α : Type}

theorem enableEventWriting_registered (w : LoopConnection α) (enable : Bool) :
    (w.enableEventWriting enable).registered = w.registered := by
  unfold enableEventWriting
  split
  next h => exact h.symm
  next => rfl

theorem addEvent_registered (w : LoopConnection α) : w.addEvent.registered = true := by
  unfold addEvent
  split
  next h => exact h
  next => rfl

theorem report_registered (w : LoopConnection α) :
    ({ w with fd := w.fd.report.2 } : LoopConnection α).registered = w.registered := by
  unfold registered Descriptor.report
  split
  · rfl
  · rfl

theorem sendListInLoop_registered (w : LoopConnection α) (list : List (Region α)) :
    (w.sendListInLoop list).registered = w.registered := by
  unfold sendListInLoop
  dsimp only
  split
  · rfl
  · exact enableEventWriting_registered _ true

theorem sendInLoop_registered [Pointer α] (w : LoopConnection α) (buf : α) (size : UInt64) (ret : WriteReturn) :
    (w.sendInLoop buf size ret).registered = w.registered := by
  unfold sendInLoop
  dsimp only
  split
  · exact enableEventWriting_registered _ true
  · rfl

theorem sendListInLoop_closed (w : LoopConnection α) (list : List (Region α)) :
    (w.sendListInLoop list).conn.closed = w.conn.closed := by
  have hsame : (w.conn.sendListInLoop list).closed = w.conn.closed := by
    unfold TcpConnection.sendListInLoop
    dsimp only
    split
    · rfl
    · split <;> rfl
  unfold sendListInLoop
  dsimp only
  split
  · exact hsame
  · rw [enableEventWriting_conn]
    exact hsame

theorem sendInLoop_closed [Pointer α] (w : LoopConnection α) (buf : α) (size : UInt64) (ret : WriteReturn) :
    (w.sendInLoop buf size ret).conn.closed = w.conn.closed := by
  have hsame : (w.conn.sendInLoop buf size ret.result).conn.closed = w.conn.closed := by
    rcases sendInLoop_conn w.conn buf size ret.result with h | ⟨vec, h⟩
    · rw [h]
    · rw [h]
      rfl
  unfold sendInLoop
  dsimp only
  split
  · rw [enableEventWriting_conn]
    exact hsame
  · exact hsame

end LoopConnection

namespace TcpClient
variable {α : Type} {c c' : TcpClient α}

/-- A client is registered with its loop while it connects or is connected. -/
def Listed (c : TcpClient α) : Prop := c.registered = true ↔ c.status = .connecting ∨ c.status = .connected

theorem Listed.off (h : c.Listed) (hnot : ¬ (c.status = .connecting ∨ c.status = .connected)) : c.registered = false :=
  Bool.eq_false_iff.mpr fun hreg => hnot (h.mp hreg)

theorem listed_disconnected (hoff : c.registered = false) (hstatus : c.status = .disconnected) : c.Listed := by
  unfold Listed
  rw [hoff, hstatus]
  decide

theorem listed_connected (hon : c.registered = true) (hstatus : c.status = .connected) : c.Listed :=
  ⟨fun _ => .inr hstatus, fun _ => hon⟩

theorem listed_connecting (hon : c.registered = true) (hstatus : c.status = .connecting) : c.Listed :=
  ⟨fun _ => .inl hstatus, fun _ => hon⟩

theorem Listed.congr (hreg : c'.registered = c.registered) (hstatus : c'.status = c.status) (h : c.Listed) :
    c'.Listed := by
  unfold Listed
  rw [hreg, hstatus]
  exact h

/-! ## After a close -/

/-- What becomes of a closed client while `n` descriptors are opened. -/
structure Later (c c' : TcpClient α) (n : Nat) : Prop where
  conn : c'.link.conn = c.link.conn
  events : ∃ k, c'.events = c.events ++ List.replicate k .connected
  openFds : c'.openFds = c.openFds + n
  reading : c'.reading = true → c.reading = true ∧ c'.fd = c.fd
  listed : c.Listed → c'.Listed
  strays : c'.strays = c.strays

theorem Later.refl (c : TcpClient α) : c.Later c 0 where
  conn := rfl
  events := ⟨0, (List.append_nil _).symm⟩
  openFds := rfl
  reading := fun h => ⟨h, rfl⟩
  listed := id
  strays := rfl

theorem Later.trans {c'' : TcpClient α} {n m : Nat} (h : c.Later c' n) (h' : c'.Later c'' m) : c.Later c'' (n + m) where
  conn := h'.conn.trans h.conn
  events := by
    obtain ⟨k, hk⟩ := h.events
    obtain ⟨k', hk'⟩ := h'.events
    exact ⟨k + k', by rw [hk', hk, List.append_assoc, List.replicate_append_replicate]⟩
  openFds := by rw [h'.openFds, h.openFds, Nat.add_assoc]
  reading := by
    intro hreading
    obtain ⟨hbefore, hfd'⟩ := h'.reading hreading
    obtain ⟨hfirst, hfd⟩ := h.reading hbefore
    exact ⟨hfirst, hfd'.trans hfd⟩
  listed := h'.listed ∘ h.listed
  strays := h'.strays.trans h.strays

theorem Later.silent (hconn : c'.link.conn = c.link.conn) (hevents : c'.events = c.events)
    (hopen : c'.openFds = c.openFds) (hreading : c'.reading = true → c.reading = true ∧ c'.fd = c.fd)
    (hlisted : c.Listed → c'.Listed) (hstrays : c'.strays = c.strays) : c.Later c' 0 where
  conn := hconn
  events := ⟨0, hevents.trans (List.append_nil _).symm⟩
  openFds := hopen
  reading := hreading
  listed := hlisted
  strays := hstrays

theorem updateConnectionStatus_later (hstatus : c.status = .connecting) : c.Later c.updateConnectionStatus 0 where
  conn := rfl
  events := ⟨1, rfl⟩
  openFds := rfl
  reading := fun h => ⟨h, rfl⟩
  listed := fun h => listed_connected (h.mpr (.inl hstatus)) rfl
  strays := rfl

theorem dropFd_off (hoff : c.registered = false) : c.dropFd = c := by
  unfold dropFd
  exact if_neg (by rw [hoff]; exact Bool.false_ne_true)

theorem freshLink_conn (c : TcpClient α) :
    (({ c.link with fd := freshDescriptor } : LoopConnection α).addEvent.enableEventWriting true).conn =
      c.link.conn := by
  rw [LoopConnection.enableEventWriting_conn]
  unfold LoopConnection.addEvent
  split <;> rfl

theorem freshLink_registered (c : TcpClient α) :
    (({ c.link with fd := freshDescriptor } : LoopConnection α).addEvent.enableEventWriting true).registered = true :=
  (LoopConnection.enableEventWriting_registered _ true).trans (LoopConnection.addEvent_registered _)

section Closed
variable (hclosed : c.link.conn.closed = true)
include hclosed

theorem connectionOnClose_closed : c.connectionOnClose = c := by
  unfold connectionOnClose
  exact if_pos hclosed

theorem onClose_later : c.Later c.onClose 0 := by
  unfold onClose
  split
  · rw [connectionOnClose_closed (by exact hclosed)]
    exact .silent rfl rfl rfl (fun h => ⟨h, rfl⟩) (fun _ => listed_disconnected rfl rfl) rfl
  next hnot =>
    rw [connectionOnClose_closed (by exact hclosed)]
    exact .silent rfl rfl rfl (fun h => ⟨h, rfl⟩) (fun h => listed_disconnected (h.off hnot) rfl) rfl

theorem checkError_later (hstatus : c.status = .connecting) : c.Later c.checkError 0 := by
  have htaken : c.Later { c with soError := false } 0 := .silent rfl rfl rfl (fun h => ⟨h, rfl⟩) id rfl
  unfold checkError
  dsimp only
  split
  · exact htaken.trans (onClose_later hclosed)
  · exact htaken.trans (updateConnectionStatus_later hstatus)

theorem readTurn_later : c.Later (c.readTurn .failed) 0 := by
  have hdone : c.Later { c with reading := false } 0 := .silent rfl rfl rfl nofun id rfl
  exact hdone.trans (onClose_later hclosed)

theorem onRead_later : c.Later c.onRead 0 := by
  unfold onRead
  split
  next hstatus => exact checkError_later hclosed hstatus
  · rw [if_pos hclosed]
    exact .refl c
  · exact .refl c
  · exact .refl c

theorem connectInLoop_later (hoff : c.registered = false) (hread : c.reading = false) (socket : Bool)
    (ret : ConnectReturn) : c.Later (c.connectInLoop socket ret) (bif socket then 1 else 0) := by
  have hconn := c.freshLink_conn
  have hreg := c.freshLink_registered
  have hnot : c.reading ≠ true := Bool.eq_false_iff.mp hread
  unfold connectInLoop
  rw [dropFd_off hoff]
  cases socket with
  | false =>
      have hnone : c.Later { c with fd := false } 0 := .silent rfl rfl rfl (fun h => absurd h hnot) id rfl
      exact hnone.trans (onClose_later hclosed)
  | true =>
      dsimp only
      rw [if_pos rfl]
      split
      · exact ⟨hconn, ⟨1, rfl⟩, rfl, fun h => absurd h hnot, fun _ => listed_connected hreg rfl, rfl⟩
      · exact ⟨hconn, ⟨0, (List.append_nil _).symm⟩, rfl, fun h => absurd h hnot,
          fun _ => listed_connecting hreg rfl, rfl⟩
      · refine Later.trans (n := 1) ?_ (onClose_later ?_)
        · exact ⟨hconn, ⟨0, (List.append_nil _).symm⟩, rfl, fun h => absurd h hnot,
            fun _ => listed_connecting hreg rfl, rfl⟩
        · rw [hconn]
          exact hclosed

variable [Pointer α]

theorem onWrite_later (rets : List WriteReturn) : c.Later (c.onWrite rets) 0 := by
  unfold onWrite
  split
  next hstatus => exact checkError_later hclosed hstatus
  · rw [hclosed, Bool.true_or, if_pos rfl]
    exact .refl c
  · exact .refl c
  · exact .refl c

theorem handle_later (ev : Events) (writes : List WriteReturn) : c.Later (c.handle ev writes) 0 := by
  unfold handle
  split
  · unfold dispatch
    split
    · exact .silent rfl rfl rfl (fun h => ⟨h, rfl⟩) id rfl
    · exact onClose_later hclosed
    · exact onRead_later hclosed
    · exact onWrite_later hclosed writes
    · exact .refl c
  · exact .refl c

theorem send_later (buf : α) (size : UInt64) (ret : WriteReturn) : c.Later (c.send buf size ret) 0 := by
  have hsame : c.link.conn.sendInLoop buf size ret.result = { conn := c.link.conn } := by
    unfold TcpConnection.sendInLoop
    exact if_pos hclosed
  have hlink : (c.link.sendInLoop buf size ret).conn = c.link.conn := by
    unfold LoopConnection.sendInLoop
    dsimp only
    rw [hsame, if_neg (Nat.lt_irrefl _)]
  unfold send
  split
  · simp only [hsame, List.isEmpty_nil, if_true]
    exact .silent hlink rfl rfl (fun h => ⟨h, rfl⟩)
      (.congr (LoopConnection.sendInLoop_registered c.link buf size ret) rfl) rfl
  · exact .refl c

omit [Pointer α] in
theorem sendList_later (list : List (Region α)) : c.Later (c.sendList list) 0 := by
  have hlink : (c.link.sendListInLoop list).conn = c.link.conn := by
    unfold LoopConnection.sendListInLoop TcpConnection.sendListInLoop
    simp only [hclosed, if_true, Bool.true_or]
  unfold sendList
  split
  · exact .silent hlink rfl rfl (fun h => ⟨h, rfl⟩)
      (.congr (LoopConnection.sendListInLoop_registered c.link list) rfl) rfl
  · exact .refl c

end Closed

/-- How many descriptors an action opens. -/
def opens : ClientAction α → Nat
  | .connect socket _ => bif socket then 1 else 0
  | _ => 0

/-- A closed client; where the message callback has closed it, the loop of `OnRead` reads from nothing. -/
structure Shut (c : TcpClient α) : Prop where
  closed : c.link.conn.closed = true
  reading : c.reading = true → c.fd = false
  strays : c.strays = 0

theorem Shut.later {n : Nat} (h : c.Shut) (hlater : c.Later c' n) : c'.Shut where
  closed := by rw [hlater.conn]; exact h.closed
  reading := by
    intro hreading
    obtain ⟨hbefore, hfd⟩ := hlater.reading hreading
    rw [hfd]
    exact h.reading hbefore
  strays := hlater.strays.trans h.strays

section Sending
variable [Pointer α]

theorem step_later {a : ClientAction α} (h : c.Shut) (hallows : c.Allows a) (hstep : c.step a = some c') :
    c.Later c' (opens a) := by
  have hkernel : ∀ link socket soError reported, link.conn = c.link.conn → link.registered = c.link.registered →
      c.Later { c with link, socket, soError, reported } 0 :=
    fun _ _ _ _ hconn hreg => .silent hconn rfl rfl (fun h => ⟨h, rfl⟩) (.congr hreg rfl) rfl
  cases a with
  | connect socket ret =>
      cases hstep
      exact connectInLoop_later h.closed hallows.1 hallows.2 socket ret
  | establish =>
      obtain ⟨-, hstep⟩ := Option.ite_none_right_eq_some.mp hstep
      cases hstep
      exact hkernel _ _ _ _ rfl rfl
  | refuse =>
      obtain ⟨-, hstep⟩ := Option.ite_none_right_eq_some.mp hstep
      cases hstep
      exact hkernel _ _ _ _ rfl rfl
  | becomes conditions =>
      obtain ⟨-, hstep⟩ := Option.ite_none_right_eq_some.mp hstep
      cases hstep
      exact hkernel _ _ _ _ rfl rfl
  | ceases conditions =>
      obtain ⟨-, hstep⟩ := Option.ite_none_right_eq_some.mp hstep
      cases hstep
      exact hkernel _ _ _ _ rfl rfl
  | epollWait =>
      obtain ⟨-, hstep⟩ := Option.ite_none_right_eq_some.mp hstep
      cases hstep
      exact hkernel _ _ _ _ rfl (LoopConnection.report_registered c.link)
  | handle writes =>
      obtain ⟨ev, -, rfl⟩ := Option.map_eq_some_iff.mp hstep
      exact (hkernel c.link c.socket c.soError none rfl rfl).trans
        (handle_later (c := { c with reported := none }) h.closed ev writes)
  | stray ev writes =>
      obtain ⟨⟨hstrays, -⟩, -⟩ := Option.ite_none_right_eq_some.mp hstep
      exact absurd h.strays (Nat.ne_of_gt hstrays)
  | readFd ret =>
      obtain ⟨⟨hreading, hfd⟩, hstep⟩ := Option.ite_none_right_eq_some.mp hstep
      cases hstep
      obtain rfl := hfd.resolve_left (by rw [h.reading hreading]; exact Bool.false_ne_true)
      exact readTurn_later h.closed
  | send buf size ret =>
      cases hstep
      exact send_later h.closed buf size ret
  | sendList list =>
      cases hstep
      exact sendList_later h.closed list
  | forceClose =>
      cases hstep
      exact onClose_later h.closed

theorem run_later {as : List (ClientAction α)} (h : c.Shut) (hproper : c.Proper as)
    (hrun : run step c as = some c') : c.Later c' (as.map opens).sum := by
  induction as generalizing c with
  | nil =>
      cases hrun
      exact .refl _
  | cons a as ih =>
      obtain ⟨t, ht, hrest⟩ := run_cons_iff.mp hrun
      have hfirst := step_later h hproper.1 ht
      rw [List.map_cons, List.sum_cons]
      exact hfirst.trans (ih (h.later hfirst) (hproper.2 t ht) hrest)

end Sending

/-! ## The first life -/

/-- What the user has seen of a client that was never closed. -/
def Shown : TcpConStatus → List (ClientEvent α) → Prop
  | .init, events | .connecting, events => events = []
  | .connected, events => ∃ data, events = .connected :: data ∧ ∀ e ∈ data, e.isData = true
  | .disconnected, _ => False

/-- A client that was never closed. -/
structure Opened (c : TcpClient α) : Prop where
  opened : c.link.conn.closed = false
  listed : c.Listed
  fd : c.fd = c.registered
  openFds : c.openFds = if c.registered then 1 else 0
  reading : c.reading = true → c.status = .connected
  strays : c.strays = 0
  shown : Shown c.status c.events

/-- A client that has just been closed for the first time. -/
structure JustClosed (c : TcpClient α) : Prop where
  closed : c.link.conn.closed = true
  fd : c.fd = false
  openFds : c.openFds = 0
  status : c.status = .disconnected
  registered : c.registered = false
  strays : c.strays = 0
  events : ∃ status seen, Shown status seen ∧ c.events = seen ++ [.closed]

def Ongoing (c : TcpClient α) : Prop := c.Opened ∨ c.JustClosed

theorem JustClosed.shut (h : c.JustClosed) : c.Shut := ⟨h.closed, fun _ => h.fd, h.strays⟩

theorem JustClosed.listed (h : c.JustClosed) : c.Listed := listed_disconnected h.registered h.status

theorem opened_initial : ({} : TcpClient α).Opened where
  opened := rfl
  listed := by simp [Listed, registered, LoopConnection.registered]
  fd := rfl
  openFds := rfl
  reading := nofun
  strays := rfl
  shown := rfl

theorem connectionOnClose_just (hopen : c.link.conn.closed = false) (hstatus : c.status = .disconnected)
    (hoff : c.registered = false) (hfds : c.openFds = if c.fd then 1 else 0)
    (hstrays : c.strays = 0) (hshown : ∃ status, Shown status c.events) : c.connectionOnClose.JustClosed := by
  obtain ⟨status, hshown⟩ := hshown
  have hnot : ¬ c.link.conn.closed = true := by rw [hopen]; exact Bool.false_ne_true
  unfold connectionOnClose close
  rw [if_neg hnot]
  split
  next hfd =>
    replace hfds : c.openFds = 1 := hfds.trans (if_pos hfd)
    exact ⟨rfl, rfl, by rw [hfds], hstatus, rfl, hstrays, status, _, hshown, rfl⟩
  next hfd =>
    replace hfds : c.openFds = 0 := hfds.trans (if_neg hfd)
    exact ⟨rfl, Bool.eq_false_iff.mpr hfd, hfds, hstatus, hoff, hstrays, status, _, hshown, rfl⟩

theorem Opened.onClose (h : c.Opened) : c.onClose.JustClosed := by
  have hfds : c.openFds = if c.fd then 1 else 0 := by rw [h.fd]; exact h.openFds
  unfold TcpClient.onClose
  split
  · exact connectionOnClose_just h.opened rfl rfl hfds h.strays ⟨c.status, h.shown⟩
  next hnot => exact connectionOnClose_just h.opened rfl (h.listed.off hnot) hfds h.strays ⟨c.status, h.shown⟩

theorem Opened.kernel {link : LoopConnection α} {socket : ClientSocket} {soError : Bool} {reported : Option Events}
    (h : c.Opened) (hconn : link.conn.closed = false) (hreg : link.registered = c.link.registered) :
    ({ c with link, socket, soError, reported } : TcpClient α).Opened where
  opened := hconn
  listed := h.listed.congr hreg rfl
  fd := h.fd.trans hreg.symm
  openFds := h.openFds.trans (by rw [show c.registered = _ from hreg.symm]; rfl)
  reading := h.reading
  strays := h.strays
  shown := h.shown

/-- Data goes to the user or to the socket. -/
theorem Opened.data (h : c.Opened) (link : LoopConnection α) (e : ClientEvent α) (hstatus : c.status = .connected)
    (hconn : link.conn.closed = false) (hreg : link.registered = c.link.registered) (he : e.isData = true) :
    ({ c with link, events := c.events ++ [e] } : TcpClient α).Opened where
  opened := hconn
  listed := h.listed.congr hreg rfl
  fd := h.fd.trans hreg.symm
  openFds := h.openFds.trans (by rw [show c.registered = _ from hreg.symm]; rfl)
  reading := h.reading
  strays := h.strays
  shown := by
    have hshown := h.shown
    rw [hstatus] at hshown ⊢
    obtain ⟨data, hdata, hall⟩ := hshown
    refine ⟨data ++ [e], by rw [hdata]; rfl, ?_⟩
    intro e' he'
    rcases List.mem_append.mp he' with hmem | hmem
    · exact hall e' hmem
    · rw [List.mem_singleton.mp hmem]
      exact he

theorem Opened.connected (h : c.Opened) (hstatus : c.status = .connecting) : c.updateConnectionStatus.Opened where
  opened := h.opened
  listed := listed_connected (h.listed.mpr (.inl hstatus)) rfl
  fd := h.fd
  openFds := h.openFds
  reading := fun _ => rfl
  strays := h.strays
  shown := by
    have hnone : c.events = [] := by simpa only [hstatus, Shown] using h.shown
    exact ⟨[], by rw [updateConnectionStatus, hnone]; rfl, nofun⟩

theorem Opened.checkError (h : c.Opened) (hstatus : c.status = .connecting) : c.checkError.Ongoing := by
  have htaken : ({ c with soError := false } : TcpClient α).Opened := h.kernel h.opened rfl
  unfold TcpClient.checkError
  dsimp only
  split
  · exact .inr htaken.onClose
  · exact .inl (htaken.connected hstatus)

theorem Opened.atRest (h : c.Opened) : ({ c with reading := false } : TcpClient α).Opened where
  opened := h.opened
  listed := h.listed
  fd := h.fd
  openFds := h.openFds
  reading := nofun
  strays := h.strays
  shown := h.shown

theorem Opened.readTurn (h : c.Opened) (hreading : c.reading = true) (ret : ReadReturn) : (c.readTurn ret).Ongoing := by
  cases ret with
  | got => exact .inl (h.data c.link .message (h.reading hreading) h.opened rfl rfl)
  | eof => exact .inr h.atRest.onClose
  | failed => exact .inr h.atRest.onClose
  | eagain => exact .inl h.atRest
  | eintr => exact .inl h.atRest

theorem Opened.onRead (h : c.Opened) : c.onRead.Ongoing := by
  unfold TcpClient.onRead
  split
  next hstatus => exact h.checkError hstatus
  next hstatus =>
    rw [if_neg (by rw [h.opened]; exact Bool.false_ne_true)]
    exact .inl ⟨h.opened, h.listed, h.fd, h.openFds, fun _ => hstatus, h.strays, h.shown⟩
  · exact .inl h
  · exact .inl h

theorem Opened.unregistered (h : c.Opened) (hoff : c.registered = false) : c.status = .init := by
  have hshown := h.shown
  have hnot := mt h.listed.mpr (by rw [hoff]; exact Bool.false_ne_true)
  cases hstatus : c.status with
  | init => rfl
  | connecting => exact absurd (.inl hstatus) hnot
  | connected => exact absurd (.inr hstatus) hnot
  | disconnected =>
      rw [hstatus] at hshown
      exact hshown.elim

theorem Opened.connectInLoop (h : c.Opened) (hoff : c.registered = false) (hread : c.reading = false) (socket : Bool)
    (ret : ConnectReturn) : (c.connectInLoop socket ret).Ongoing := by
  unfold TcpClient.connectInLoop
  rw [dropFd_off hoff]
  cases socket with
  | false =>
      have hnone : ({ c with fd := false } : TcpClient α).Opened :=
        ⟨h.opened, h.listed, hoff.symm, h.openFds, h.reading, h.strays, h.shown⟩
      exact .inr hnone.onClose
  | true =>
      have hconn := c.freshLink_conn
      have hreg := c.freshLink_registered
      have hnot : c.reading ≠ true := Bool.eq_false_iff.mp hread
      have hfds : c.openFds = 0 := by rw [h.openFds, hoff]; rfl
      have hunseen : c.events = [] := by simpa only [h.unregistered hoff, Shown] using h.shown
      dsimp only
      rw [if_pos rfl]
      generalize ({ c.link with fd := freshDescriptor } : LoopConnection α).addEvent.enableEventWriting true = link
        at hconn hreg
      have hopen : ({ c with link, fd := true, openFds := c.openFds + 1, status := .connecting, soError := false } :
          TcpClient α).Opened :=
        ⟨by rw [hconn]; exact h.opened, listed_connecting hreg rfl, hreg.symm,
          by rw [registered, hreg, hfds]; rfl, fun hr => absurd hr hnot, h.strays, hunseen⟩
      split
      · refine .inl (Opened.connected ?_ rfl)
        exact hopen.kernel (by rw [hconn]; exact h.opened) rfl
      · exact .inl (hopen.kernel (by rw [hconn]; exact h.opened) rfl)
      · exact .inr (hopen.kernel (by rw [hconn]; exact h.opened) rfl).onClose

theorem Opened.sendList (h : c.Opened) (list : List (Region α)) : (c.sendList list).Opened := by
  have hconn := LoopConnection.sendListInLoop_closed c.link list
  unfold TcpClient.sendList
  split
  · exact h.kernel (hconn.trans h.opened) (LoopConnection.sendListInLoop_registered c.link list)
  · exact h

variable [Pointer α]

theorem Opened.writeLoop (h : c.Opened) (hstatus : c.status = .connected) (rets : List WriteReturn) :
    (c.writeLoop rets).Ongoing := by
  induction rets generalizing c with
  | nil => exact .inl h
  | cons ret rets ih =>
      unfold TcpClient.writeLoop
      dsimp only
      cases ret with
      | accepted n =>
          have hconn : (c.link.conn.writeLoop [(WriteReturn.accepted n).result]).conn.closed = false := by
            simp only [WriteReturn.result, TcpConnection.writeLoop]
            split
            · exact h.opened
            · exact h.opened
          have hwritten := h.data { c.link with conn := (c.link.conn.writeLoop [.accepted n]).conn }
            (.wrote (c.link.conn.writeLoop [.accepted n]).accepted) hstatus hconn rfl rfl
          dsimp only
          split
          · refine .inl (hwritten.kernel ?_ (LoopConnection.enableEventWriting_registered _ false))
            rw [LoopConnection.enableEventWriting_conn]
            exact hconn
          · exact ih hwritten hstatus
      | eagain => exact .inl h
      | eintr => exact .inl h
      | failed => exact .inr h.onClose

theorem Opened.onWrite (h : c.Opened) (rets : List WriteReturn) : (c.onWrite rets).Ongoing := by
  unfold TcpClient.onWrite
  split
  next hstatus => exact h.checkError hstatus
  next hstatus =>
    split
    · exact .inl h
    · exact h.writeLoop hstatus rets
  · exact .inl h
  · exact .inl h

theorem Opened.handle (h : c.Opened) (ev : Events) (writes : List WriteReturn) : (c.handle ev writes).Ongoing := by
  unfold TcpClient.handle
  split
  · unfold TcpClient.dispatch
    split
    · exact .inl (h.kernel h.opened rfl)
    · exact .inr h.onClose
    · exact h.onRead
    · exact h.onWrite writes
    · exact .inl h
  · exact .inl h

theorem Opened.send (h : c.Opened) (buf : α) (size : UInt64) (ret : WriteReturn) : (c.send buf size ret).Opened := by
  have hconn := LoopConnection.sendInLoop_closed c.link buf size ret
  have hreg := LoopConnection.sendInLoop_registered c.link buf size ret
  unfold TcpClient.send
  split
  next hstatus =>
    dsimp only
    split
    · exact h.kernel (hconn.trans h.opened) hreg
    · exact h.data _ _ hstatus (hconn.trans h.opened) hreg rfl
  · exact h

theorem Opened.step {a : ClientAction α} (h : c.Opened) (hallows : c.Allows a) (hstep : c.step a = some c') :
    c'.Ongoing := by
  have hreport := LoopConnection.report_registered c.link
  cases a with
  | connect socket ret =>
      cases hstep
      exact h.connectInLoop hallows.1 hallows.2 socket ret
  | establish =>
      obtain ⟨-, hstep⟩ := Option.ite_none_right_eq_some.mp hstep
      cases hstep
      exact .inl (h.kernel h.opened rfl)
  | refuse =>
      obtain ⟨-, hstep⟩ := Option.ite_none_right_eq_some.mp hstep
      cases hstep
      exact .inl (h.kernel h.opened rfl)
  | becomes conditions =>
      obtain ⟨-, hstep⟩ := Option.ite_none_right_eq_some.mp hstep
      cases hstep
      exact .inl (h.kernel h.opened rfl)
  | ceases conditions =>
      obtain ⟨-, hstep⟩ := Option.ite_none_right_eq_some.mp hstep
      cases hstep
      exact .inl (h.kernel h.opened rfl)
  | epollWait =>
      obtain ⟨-, hstep⟩ := Option.ite_none_right_eq_some.mp hstep
      cases hstep
      exact .inl (h.kernel h.opened hreport)
  | handle writes =>
      obtain ⟨ev, -, rfl⟩ := Option.map_eq_some_iff.mp hstep
      refine Opened.handle ?_ ev writes
      exact h.kernel h.opened rfl
  | stray ev writes =>
      obtain ⟨⟨hstrays, -⟩, -⟩ := Option.ite_none_right_eq_some.mp hstep
      exact absurd h.strays (Nat.ne_of_gt hstrays)
  | readFd ret =>
      obtain ⟨⟨hreading, -⟩, hstep⟩ := Option.ite_none_right_eq_some.mp hstep
      cases hstep
      exact h.readTurn hreading ret
  | send buf size ret =>
      cases hstep
      exact .inl (h.send buf size ret)
  | sendList list =>
      cases hstep
      exact .inl (h.sendList list)
  | forceClose =>
      cases hstep
      exact .inr h.onClose

theorem Proper.cons {a : ClientAction α} {as : List (ClientAction α)} (hallows : c.Allows a)
    (hstep : c.step a = some c') (h : c'.Proper as) : c.Proper (a :: as) := by
  refine ⟨hallows, fun t ht => ?_⟩
  obtain rfl := Option.some.inj (hstep.symm.trans ht)
  exact h

/-- A run keeps a client in its first life, or it has a step that closes it. -/
theorem Opened.run {as : List (ClientAction α)} (h : c.Opened) (hproper : c.Proper as)
    (hrun : run TcpClient.step c as = some c') :
    c'.Opened ∨ ∃ before after d, as = before ++ after ∧ Lib.Runs.run TcpClient.step c before = some d ∧
      d.JustClosed ∧ d.Later c' (after.map opens).sum := by
  induction as generalizing c with
  | nil =>
      cases hrun
      exact .inl h
  | cons a as ih =>
      obtain ⟨t, ht, hrest⟩ := run_cons_iff.mp hrun
      have hproper' := hproper.2 t ht
      rcases h.step hproper.1 ht with hopen | hclosed
      · rcases ih hopen hproper' hrest with hend | ⟨before, after, d, rfl, hbefore, hd, hlater⟩
        · exact .inl hend
        · exact .inr ⟨a :: before, after, d, rfl, run_cons_iff.mpr ⟨t, ht, hbefore⟩, hd, hlater⟩
      · have hfirst : Lib.Runs.run TcpClient.step c [a] = some t := run_cons_iff.mpr ⟨t, ht, rfl⟩
        exact .inr ⟨[a], as, t, rfl, hfirst, hclosed, run_later hclosed.shut hproper' hrest⟩

/-- Over any run in which `Connect` is called where there is no connection, a client is registered just while it
connects or is connected. Until it is closed it has one descriptor, and the user has seen nothing, or one `connected`
and then data. It closes with its descriptor and is seen `closed` once; whatever comes later the user sees only
connections, and each `Connect` leaves a descriptor. -/
theorem client_lifecycle {as : List (ClientAction α)} (hproper : ({} : TcpClient α).Proper as)
    (hrun : run step ({} : TcpClient α) as = some c) :
    c.Listed ∧ (c.Opened ∨ ∃ before after d, as = before ++ after ∧ run step {} before = some d ∧
      d.JustClosed ∧ d.Later c (after.map opens).sum) := by
  have hlife := opened_initial.run hproper hrun
  refine ⟨?_, hlife⟩
  rcases hlife with hopen | ⟨_, _, d, -, -, hd, hlater⟩
  · exact hopen.listed
  · exact hlater.listed hd.listed

/-- A client that connects, is closed by its peer and connects again. -/
theorem client_lifecycle_reconnects : ∃ c : TcpClient UInt64,
    run step {} [.connect true .inProgress, .establish, .epollWait, .handle [], .becomes { epollin := true },
      .epollWait, .handle [], .readFd .got, .readFd .eof, .connect true .ok] = some c ∧
    c.Listed ∧ (c.Opened ∨ ∃ before after d,
      [.connect true .inProgress, .establish, .epollWait, .handle [], .becomes { epollin := true },
        .epollWait, .handle [], .readFd .got, .readFd .eof, .connect true .ok] = before ++ after ∧
      run step {} before = some d ∧ d.JustClosed ∧ d.Later c (after.map opens).sum) :=
  have hproper : ({} : TcpClient UInt64).Proper [.connect true .inProgress, .establish, .epollWait, .handle [],
      .becomes { epollin := true }, .epollWait, .handle [], .readFd .got, .readFd .eof, .connect true .ok] :=
    .cons ⟨rfl, rfl⟩ rfl <| .cons trivial rfl <| .cons trivial rfl <| .cons trivial rfl <| .cons trivial rfl <|
      .cons trivial rfl <| .cons trivial rfl <| .cons trivial rfl <| .cons trivial rfl <| .cons ⟨rfl, rfl⟩ rfl trivial
  ⟨_, rfl, client_lifecycle hproper rfl⟩

end TcpClient
end TmmsServer
