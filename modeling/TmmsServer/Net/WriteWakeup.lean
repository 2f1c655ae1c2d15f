import TmmsServer.Net.EventLoop
import TmmsServer.Net.TcpOutput

/-!
# Wake-ups for pending output

A connection with vectors pending and `EPOLLOUT` enabled relies on a report of its
socket becoming writable. A report that carries another condition besides goes to the
other handler, and edge-triggered readiness is not reported twice.
-/
namespace TmmsServer
open Lib.Gather Lib.Epoll

namespace LoopConnection
variable {α : Type}

/-- Vectors pending with `EPOLLOUT` enabled and the socket writable, and no report to come. -/
structure Stalled (w : LoopConnection α) : Prop where
  isOpen : w.conn.closed = false
  pending : w.conn.ioVecList ≠ []
  overdue : w.fd.Overdue .writable

theorem onClose_not_stalled (w : LoopConnection α) : ¬ w.onClose.Stalled :=
  fun h => Bool.noConfusion h.isOpen

theorem enableEventWriting_not_overdue (w : LoopConnection α) (enable : Bool)
    {c : Events.Condition} : ¬ (w.enableEventWriting enable).fd.Overdue c := by
  unfold enableEventWriting
  split
  · exact Descriptor.register_not_overdue _
  next hnot => exact Descriptor.unregistered_not_overdue (Option.not_isSome_iff_eq_none.mp hnot)

theorem enableEventWriting_not_stalled (w : LoopConnection α) (enable : Bool) :
    ¬ (w.enableEventWriting enable).Stalled :=
  fun h => enableEventWriting_not_overdue w enable h.overdue

theorem sendListInLoop_stalled {w : LoopConnection α} {list : List (Region α)}
    (h : (w.sendListInLoop list).Stalled) : w.Stalled := by
  unfold sendListInLoop at h
  dsimp only at h
  split at h
  next hidle =>
    rcases Bool.or_eq_true_iff.mp hidle with hclosed | hempty
    · exact absurd (hclosed.symm.trans h.isOpen) Bool.noConfusion
    · exact absurd (List.isEmpty_iff.mp hempty) h.pending
  · exact absurd h (enableEventWriting_not_stalled _ true)

variable [Pointer α]

theorem sendInLoop_conn (c : TcpConnection α) (buf : α) (size : UInt64) (res : WriteResult) :
    (c.sendInLoop buf size res).conn = c ∨ ∃ vec, (c.sendInLoop buf size res).conn = c.push vec := by
  have hlen : ¬ TcpConnection.sendLen size res < 0 := UInt64.not_lt_zero
  unfold TcpConnection.sendInLoop
  simp only [hlen, false_and, if_false]
  split
  · exact .inl rfl
  · split
    · split
      · exact .inl rfl
      · exact .inr ⟨_, rfl⟩
    · split
      · exact .inr ⟨_, rfl⟩
      · exact .inl rfl

theorem sendInLoop_stalled {w : LoopConnection α} {buf : α} {size : UInt64} {ret : WriteReturn}
    (h : (w.sendInLoop buf size ret).Stalled) : w.Stalled := by
  unfold sendInLoop at h
  dsimp only at h
  split at h
  · exact absurd h (enableEventWriting_not_stalled _ true)
  next hshort =>
    rcases sendInLoop_conn w.conn buf size ret.result with hsame | ⟨vec, hpushed⟩
    · rw [hsame] at h
      exact h
    · refine absurd ?_ hshort
      rw [hpushed, TcpConnection.push, List.length_append]
      exact Nat.lt_succ_self _

theorem writeTurn_not_stalled {w : LoopConnection α} {ret : WriteReturn}
    (hpossible : ret.possible w.fd = true)
    (hintr : ret = .eintr → w.fd.queued = false → w.fd.conditions.epollout = false)
    (hend : (w.writeTurn ret).2 = false) :
    ¬ (w.writeTurn ret).1.Stalled := by
  intro h
  unfold writeTurn at h hend
  cases ret with
  | accepted n =>
      dsimp only at h hend
      split at h
      · exact enableEventWriting_not_stalled _ false h
      next hmore =>
        rw [if_neg hmore] at hend
        exact Bool.noConfusion hend
  | eagain =>
      have hblocked : w.fd.conditions.epollout = false := by
        simpa only [WriteReturn.possible, Bool.not_eq_true'] using hpossible
      exact absurd (hblocked.symm.trans h.overdue.holds) Bool.noConfusion
  | eintr => exact absurd ((hintr rfl h.overdue.quiet).symm.trans h.overdue.holds) Bool.noConfusion
  | failed => exact onClose_not_stalled _ h

end LoopConnection

namespace EventLoop
variable {α : Type}

/-- An event with `EPOLLOUT` is still to be taken up, or `OnWrite` is running. -/
inductive Awaited (fd : Nat) : Phase → Prop
  | event {phase : Phase} {ev : Events} (hmem : (fd, ev) ∈ phase.events) (hout : ev.epollout = true) : Awaited fd phase
  | handler (rest : List (Nat × Events)) : Awaited fd (.writing fd rest)

/-- Whatever is stalled is about to be served. -/
def Attentive (loop : EventLoop α) : Prop :=
  ∀ fd w, loop.connections fd = some w → w.Stalled → Awaited fd loop.phase

/-- Where the loop blocks, no connection without queued readiness has output pending that could be written. -/
def NoLostWakeup (loop : EventLoop α) : Prop :=
  loop.phase = .waiting → ∀ fd w, loop.connections fd = some w → ¬ w.Stalled

theorem not_awaited {fd : Nat} {phase : Phase} (hevents : phase.events = [])
    (hwriting : ∀ rest, phase ≠ .writing fd rest) : ¬ Awaited fd phase := by
  rintro (⟨hmem, -⟩ | ⟨rest⟩)
  · rw [hevents] at hmem
    exact List.not_mem_nil hmem
  · exact hwriting rest rfl

theorem Attentive.noLostWakeup {loop : EventLoop α} (h : loop.Attentive) : loop.NoLostWakeup := by
  intro hwaiting fd w hw hstalled
  have hawaited := h fd w hw hstalled
  rw [hwaiting] at hawaited
  exact absurd hawaited (not_awaited rfl nofun)

theorem Attentive.moveTo {loop : EventLoop α} (h : loop.Attentive) {phase : Phase}
    (hawaited : ∀ fd w, loop.connections fd = some w → w.Stalled → Awaited fd loop.phase → Awaited fd phase) :
    (loop.moveTo phase).Attentive :=
  fun fd w hw hstalled => hawaited fd w hw hstalled (h fd w hw hstalled)

theorem Attentive.pass {loop : EventLoop α} (h : loop.Attentive) {phase₀ : Phase}
    (hphase : loop.phase = phase₀)
    (hnone : ∀ fd, ¬ Awaited fd phase₀) (phase : Phase) : (loop.moveTo phase).Attentive :=
  h.moveTo fun fd _ _ _ hawaited => absurd (hphase ▸ hawaited) (hnone fd)

theorem set_attentive {loop : EventLoop α} {fd : Nat} {w : LoopConnection α} {phase : Phase}
    (hother : ∀ fd' w', fd' ≠ fd → loop.connections fd' = some w' → w'.Stalled → Awaited fd' phase)
    (hown : w.Stalled → Awaited fd phase) : ((loop.set fd w).moveTo phase).Attentive := by
  intro fd' w' hw' hstalled
  dsimp only [set, moveTo] at hw'
  by_cases hfd : fd' = fd
  · rw [if_pos hfd] at hw'
    cases hw'
    exact hfd ▸ hown hstalled
  · rw [if_neg hfd] at hw'
    exact hother fd' w' hfd hw' hstalled

theorem update_attentive {loop loop' : EventLoop α} {fd : Nat}
    {f : LoopConnection α → LoopConnection α}
    (h : loop.Attentive) (hf : ∀ w, (f w).Stalled → w.Stalled)
    (hupdate : loop.update fd f = some loop') :
    loop'.Attentive := by
  unfold update at hupdate
  obtain ⟨w, hw, rfl⟩ := Option.map_eq_some_iff.mp hupdate
  exact set_attentive (fun fd' w' _ hw' => h fd' w' hw') fun hstalled => h fd w hw (hf w hstalled)

theorem callback_attentive {loop loop' : EventLoop α} {fd : Nat}
    {f : LoopConnection α → LoopConnection α}
    (h : loop.Attentive) (hf : ∀ w, (f w).Stalled → w.Stalled)
    (hcall : loop.callback fd f = some loop') :
    loop'.Attentive := by
  unfold callback at hcall
  split at hcall
  · exact update_attentive h hf hcall
  · exact absurd hcall nofun

/-- What is stalled when `epoll_wait` returns is among the events, if nothing was before. -/
theorem collect_stalled {loop loop' : EventLoop α} {fds : List Nat} {events : List (Nat × Events)}
    (hcollect : loop.collect fds = some (loop', events)) {fd : Nat} {w : LoopConnection α}
    (hw : loop'.connections fd = some w) (hstalled : w.Stalled) :
    (∃ ev, (fd, ev) ∈ events ∧ ev.epollout = true) ∨ ∃ w, loop.connections fd = some w ∧ w.Stalled := by
  induction fds generalizing loop events with
  | nil =>
      cases hcollect
      exact .inr ⟨w, hw, hstalled⟩
  | cons fd₁ fds ih =>
      simp only [collect, Option.bind_eq_bind, Option.bind_eq_some_iff] at hcollect
      obtain ⟨w₁, hw₁, hcollect⟩ := hcollect
      split at hcollect
      next hqueued =>
        obtain ⟨⟨loop₂, events₂⟩, hrest, hlast⟩ := Option.bind_eq_some_iff.mp hcollect
        cases hlast
        rcases ih hrest with ⟨ev, hmem, hout⟩ | ⟨w₂, hw₂, hstalled₂⟩
        · exact .inl ⟨ev, List.mem_append_right _ hmem, hout⟩
        · dsimp only [set] at hw₂
          by_cases hfd : fd = fd₁
          · rw [if_pos hfd] at hw₂
            cases hw₂
            obtain ⟨ev, hev, hout⟩ := hstalled₂.overdue.of_report
            refine .inl ⟨ev, List.mem_append_left _ ?_, hout⟩
            rw [hev, hfd]
            exact List.mem_singleton_self _
          · rw [if_neg hfd] at hw₂
            exact .inr ⟨w₂, hw₂, hstalled₂⟩
      · exact absurd hcollect nofun

/-- The event of an open connection of `events_` reaches `OnWrite`, or `OnClose`, where it carries `EPOLLOUT` and
vectors are pending; and no `writev` is interrupted on a writable socket. A connection whose readiness has been
queued again is free of both. -/
def Served (loop : EventLoop α) : LoopAction α → Prop
  | .dispatch => ∀ fd ev rest w, loop.phase = .dispatching ((fd, ev) :: rest) → loop.connections fd = some w →
      w.conn.closed = false → w.registered = true → w.conn.ioVecList ≠ [] → w.fd.queued = false →
      ev.epollout = true → fd ≠ 0 ∧ (handlerOf ev = .onWrite ∨ handlerOf ev = .onClose)
  | .writev .eintr => ∀ fd rest w, loop.phase = .writing fd rest → loop.connections fd = some w →
      w.fd.queued = false → w.fd.conditions.epollout = false
  | _ => True

theorem served_onWrite {loop : EventLoop α} {fd : Nat} {ev : Events} {rest : List (Nat × Events)}
    (hphase : loop.phase = .dispatching ((fd, ev) :: rest)) (hfd : fd ≠ 0) (hhandler : handlerOf ev = .onWrite) :
    loop.Served .dispatch := by
  intro fd' ev' rest' w hphase' _ _ _ _ _ _
  cases hphase.symm.trans hphase'
  exact ⟨hfd, .inl hhandler⟩

theorem served_end {loop : EventLoop α} (hphase : loop.phase = .dispatching []) :
    loop.Served .dispatch := by
  intro fd ev rest w hphase'
  cases hphase.symm.trans hphase'

/-- What is stalled is still awaited behind an event that is not for it. -/
theorem Attentive.behind {loop : EventLoop α} {fd fd' : Nat} {ev : Events} {rest : List (Nat × Events)}
    {w : LoopConnection α} {phase : Phase} (h : loop.Attentive) (hphase : loop.phase = .dispatching ((fd, ev) :: rest))
    (hw : loop.connections fd' = some w) (hstalled : w.Stalled) (hnot : fd' = fd → ev.epollout = false)
    (hevents : phase.events = rest) : Awaited fd' phase := by
  have hawaited := h fd' w hw hstalled
  rw [hphase] at hawaited
  cases hawaited with
  | @event _ ev' hmem hout =>
      rcases List.mem_cons.mp hmem with heq | hmem
      · cases heq
        exact Bool.noConfusion (hout.symm.trans (hnot rfl))
      · exact .event (hevents ▸ hmem) hout

/-- The event that the loop takes up goes neither to `OnWrite` nor to `OnClose`. -/
def Passes (fd : Nat) (ev : Events) : Prop := fd = 0 ∨ handlerOf ev ≠ .onWrite ∧ handlerOf ev ≠ .onClose

theorem epollout_of_passed {loop : EventLoop α} {fd : Nat} {ev : Events} {rest : List (Nat × Events)}
    {w : LoopConnection α} (hphase : loop.phase = .dispatching ((fd, ev) :: rest))
    (hserved : loop.Served .dispatch) (hw : loop.connections fd = some w) (hstalled : w.Stalled)
    (hpasses : Passes fd ev) : ev.epollout = false := by
  by_contra hout
  have hregistered : w.registered = true := by
    by_contra hnot
    exact Descriptor.unregistered_not_overdue (Option.not_isSome_iff_eq_none.mp hnot) hstalled.overdue
  obtain ⟨hfd, hhandler⟩ := hserved fd ev rest w hphase hw hstalled.isOpen hregistered hstalled.pending
    hstalled.overdue.quiet (eq_true_of_ne_false hout)
  rcases hpasses with hzero | ⟨hwrite, hclose⟩
  · exact hfd hzero
  · exact hhandler.elim hwrite hclose

theorem Attentive.passed {loop : EventLoop α} {fd : Nat} {ev : Events} {rest : List (Nat × Events)} {phase : Phase}
    (h : loop.Attentive) (hphase : loop.phase = .dispatching ((fd, ev) :: rest))
    (hserved : loop.Served .dispatch) (hevents : phase.events = rest) (hpasses : Passes fd ev) :
    (loop.moveTo phase).Attentive := by
  refine h.moveTo fun fd' w' hw' hstalled _ => h.behind hphase hw' hstalled ?_ hevents
  rintro rfl
  exact epollout_of_passed hphase hserved hw' hstalled hpasses

/-- An event is taken up; what was stalled is served, closed, or still to come. -/
theorem dispatch_attentive {loop : EventLoop α} {fd : Nat} {ev : Events}
    {rest : List (Nat × Events)}
    (h : loop.Attentive) (hphase : loop.phase = .dispatching ((fd, ev) :: rest))
    (hserved : loop.Served .dispatch) : (loop.dispatch fd ev rest).Attentive := by
  unfold dispatch
  split
  next hzero => exact h.passed hphase hserved rfl (.inl hzero)
  next =>
    split
    next hgone =>
      refine h.moveTo fun fd' w' hw' hstalled _ => h.behind hphase hw' hstalled ?_ rfl
      rintro rfl
      rw [hw', Option.filter_some] at hgone
      split at hgone
      · exact absurd hgone nofun
      next hnot =>
        exact absurd hstalled.overdue (Descriptor.unregistered_not_overdue (Option.not_isSome_iff_eq_none.mp hnot))
    next w hfound =>
      have hw : loop.connections fd = some w := (Option.filter_eq_some_iff.mp hfound).1
      split
      next hhandler =>
        have hpassed : (loop.moveTo (.dispatching rest)).Attentive :=
          h.passed hphase hserved rfl (.inr (by rw [hhandler]; exact ⟨nofun, nofun⟩))
        refine set_attentive (fun fd' w' _ hw' => hpassed fd' w' hw') fun hstalled => ?_
        exact hpassed fd w hw ⟨hstalled.isOpen, hstalled.pending, hstalled.overdue.of_ceases⟩
      next =>
        refine set_attentive (fun fd' w' hfd hw' hstalled => ?_) fun hstalled => absurd hstalled w.onClose_not_stalled
        exact h.behind hphase hw' hstalled (fun heq => absurd heq hfd) rfl
      next hhandler =>
        refine h.passed hphase hserved ?_ (.inr (by rw [hhandler]; exact ⟨nofun, nofun⟩))
        split <;> rfl
      next hhandler =>
        refine h.moveTo fun fd' w' hw' hstalled _ => ?_
        by_cases hfd : fd' = fd
        · subst hfd
          rw [hw] at hw'
          cases hw'
          have hbusy : (w.conn.closed || w.conn.ioVecList.isEmpty) = false := by
            rw [hstalled.isOpen, List.isEmpty_eq_false_iff.mpr hstalled.pending]
            rfl
          rw [hbusy]
          exact .handler rest
        · refine h.behind hphase hw' hstalled (fun heq => absurd heq hfd) ?_
          split <;> rfl
      next hhandler => exact h.passed hphase hserved rfl (.inr (by rw [hhandler]; exact ⟨nofun, nofun⟩))

theorem readTurn_attentive {loop : EventLoop α} {fd : Nat} {rest : List (Nat × Events)}
    (h : loop.Attentive)
    (hphase : loop.phase = .reading fd rest) (w : LoopConnection α) (ret : ReadReturn) :
    (loop.readTurn fd rest w ret).Attentive := by
  have hdone : (loop.moveTo (.dispatching rest)).Attentive := by
    refine h.moveTo fun fd' w' _ _ hawaited => ?_
    rw [hphase] at hawaited
    cases hawaited with
    | event hmem hout => exact .event hmem hout
  have hclosed : ((loop.set fd w.onClose).moveTo (.dispatching rest)).Attentive :=
    set_attentive (fun fd' w' _ => hdone fd' w') fun hs => absurd hs w.onClose_not_stalled
  cases ret with
  | got => exact h
  | eagain => exact hdone
  | eintr => exact hdone
  | eof => exact hclosed
  | failed => exact hclosed

variable [Pointer α]

theorem writeTurn_attentive {loop : EventLoop α} {fd : Nat} {rest : List (Nat × Events)}
    {w : LoopConnection α}
    {ret : WriteReturn} (h : loop.Attentive) (hphase : loop.phase = .writing fd rest)
    (hpossible : ret.possible w.fd = true)
    (hintr : ret = .eintr → w.fd.queued = false → w.fd.conditions.epollout = false) :
    ((loop.set fd (w.writeTurn ret).1).moveTo
      (if (w.writeTurn ret).2 then .writing fd rest else .dispatching rest)).Attentive := by
  refine set_attentive (fun fd' w' hfd hw' hs => ?_) fun hs => ?_
  · have hawaited := h fd' w' hw' hs
    rw [hphase] at hawaited
    cases hawaited with
    | event hmem hout =>
        refine .event ?_ hout
        split
        · exact hmem
        · exact hmem
    | handler => exact absurd rfl hfd
  · split
    · exact .handler rest
    next hend => exact absurd hs (LoopConnection.writeTurn_not_stalled hpossible hintr (Bool.eq_false_iff.mpr hend))

/-- Any step keeps what is stalled about to be served. -/
theorem step_attentive {loop loop' : EventLoop α} {action : LoopAction α} (h : loop.Attentive)
    (hserved : loop.Served action) (hstep : loop.step action = some loop') : loop'.Attentive := by
  cases action with
  | becomes fd m =>
      refine update_attentive h ?_ hstep
      exact fun w hs => ⟨hs.isOpen, hs.pending, hs.overdue.of_becomes⟩
  | ceases fd m =>
      refine update_attentive h ?_ hstep
      exact fun w hs => ⟨hs.isOpen, hs.pending, hs.overdue.of_ceases⟩
  | epollWait fds =>
      dsimp only [step] at hstep
      split at hstep
      next hwait =>
        obtain ⟨⟨loop₁, events⟩, hcollect, rfl⟩ := Option.map_eq_some_iff.mp hstep
        intro fd w hw hstalled
        rcases collect_stalled hcollect hw hstalled with ⟨ev, hmem, hout⟩ | ⟨w₀, hw₀, hstalled₀⟩
        · exact .event hmem hout
        · exact absurd hstalled₀ (h.noLostWakeup hwait.1 fd w₀ hw₀)
      · exact absurd hstep nofun
  | dispatch =>
      dsimp only [step] at hstep
      split at hstep
      next hphase =>
        cases hstep
        exact h.pass hphase (fun fd => not_awaited rfl nofun) _
      next fd ev rest hphase =>
        cases hstep
        exact dispatch_attentive h hphase hserved
      · exact absurd hstep nofun
  | readFd ret =>
      dsimp only [step] at hstep
      split at hstep
      next fd rest hphase =>
        obtain ⟨w, hw, hstep⟩ := Option.bind_eq_some_iff.mp hstep
        split at hstep
        next =>
          cases hstep
          exact readTurn_attentive h hphase w ret
        · exact absurd hstep nofun
      · exact absurd hstep nofun
  | writev ret =>
      dsimp only [step] at hstep
      split at hstep
      next fd rest hphase =>
        obtain ⟨w, hw, hstep⟩ := Option.bind_eq_some_iff.mp hstep
        split at hstep
        next hpossible =>
          cases hstep
          have hintr : ret = .eintr → w.fd.queued = false → w.fd.conditions.epollout = false := by
            rintro rfl
            exact hserved fd rest w hphase hw
          exact writeTurn_attentive h hphase hpossible hintr
        · exact absurd hstep nofun
      · exact absurd hstep nofun
  | functionsDone =>
      dsimp only [step] at hstep
      split at hstep
      next hphase =>
        cases hstep
        exact h.pass hphase (fun fd => not_awaited rfl nofun) _
      · exact absurd hstep nofun
  | accept fd m =>
      dsimp only [step] at hstep
      split at hstep
      · cases hstep
        exact set_attentive (fun fd' w' _ => h fd' w') fun hs => absurd rfl hs.pending
      · exact absurd hstep nofun
  | send fd buf size ret =>
      dsimp only [step] at hstep
      split at hstep
      · split at hstep
        · exact callback_attentive h (fun _ => LoopConnection.sendInLoop_stalled) hstep
        · exact absurd hstep nofun
      · exact absurd hstep nofun
  | sendList fd list => exact callback_attentive h (fun _ => LoopConnection.sendListInLoop_stalled) hstep
  | close fd => exact callback_attentive h (fun w hs => absurd hs w.onClose_not_stalled) hstep

/-- The states of the runs of a loop whose steps are all `Ok`. -/
inductive Reached (Ok : EventLoop α → LoopAction α → Prop) : EventLoop α → Prop
  | start : Reached Ok {}
  | step {loop loop' : EventLoop α} {action : LoopAction α} :
      Reached Ok loop → Ok loop action → loop.step action = some loop' → Reached Ok loop'

/-- No lost write wake-up: a run in which every event for a connection with vectors pending gets to
`OnWrite` where it carries `EPOLLOUT`, and no `writev` is interrupted, blocks with no connection stalled. -/
theorem noLostWakeup_of_served {loop : EventLoop α} (h : Reached Served loop) :
    loop.NoLostWakeup := by
  refine Attentive.noLostWakeup ?_
  induction h with
  | start => exact fun _ _ hw => absurd hw nofun
  | step _ hserved hstep ih => exact step_attentive ih hserved hstep

/-- A list is sent, and written when the socket is reported writable. -/
theorem noLostWakeup_of_served_write :
    ∃ loop : EventLoop UInt64, loop.phase = .waiting ∧ (loop.connections 7).isSome ∧
      loop.NoLostWakeup := by
  have hstart : Reached Served ({} : EventLoop UInt64) := .start
  have haccepted := hstart.step (show Served _ (.accept 7 { epollout := true }) from trivial) rfl
  have hsent := haccepted.step (show Served _ (.sendList 7 [⟨100, 3⟩]) from trivial) rfl
  have hwaiting := hsent.step (show Served _ .functionsDone from trivial) rfl
  have hreported := hwaiting.step (show Served _ (.epollWait [7]) from trivial) rfl
  have hwriting := hreported.step (served_onWrite rfl (by decide) rfl) rfl
  have hwritten := hwriting.step (show Served _ (.writev (.accepted 3)) from trivial) rfl
  have hdispatched := hwritten.step (served_end rfl) rfl
  have hblocked := hdispatched.step (show Served _ .functionsDone from trivial) rfl
  exact ⟨_, rfl, rfl, noLostWakeup_of_served hblocked⟩

/-- The peer's data comes in with the room for output: the event goes to `OnRead`, and the vectors stay. -/
theorem request_loses_wakeup :
    ¬ ∀ loop : EventLoop UInt64, Reached (fun _ _ => True) loop → loop.NoLostWakeup := by
  intro hall
  have hstart : Reached (fun _ _ => True) ({} : EventLoop UInt64) := .start
  have haccepted := @Reached.step _ _ _ _ _ (.accept 7 { epollout := true }) hstart trivial rfl
  have hsent := @Reached.step _ _ _ _ _ (.sendList 7 [⟨100, 3⟩]) haccepted trivial rfl
  have hwaiting := @Reached.step _ _ _ _ _ .functionsDone hsent trivial rfl
  have harrived := @Reached.step _ _ _ _ _ (.becomes 7 { epollin := true }) hwaiting trivial rfl
  have hreported := @Reached.step _ _ _ _ _ (.epollWait [7]) harrived trivial rfl
  have hreading := @Reached.step _ _ _ _ _ .dispatch hreported trivial rfl
  have hgot := @Reached.step _ _ _ _ _ (.readFd .got) hreading trivial rfl
  have hempty := @Reached.step _ _ _ _ _ (.ceases 7 { epollin := true }) hgot trivial rfl
  have hread := @Reached.step _ _ _ _ _ (.readFd .eagain) hempty trivial rfl
  have hdispatched := @Reached.step _ _ _ _ _ .dispatch hread trivial rfl
  have hblocked := @Reached.step _ _ _ _ _ .functionsDone hdispatched trivial rfl
  exact hall _ hblocked rfl 7 _ rfl ⟨rfl, List.cons_ne_nil _ _, rfl, rfl, rfl⟩

end EventLoop
end TmmsServer
