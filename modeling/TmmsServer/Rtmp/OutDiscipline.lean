import TmmsServer.Rtmp.ChunkRoundTrip
import TmmsServer.Rtmp.OutQueue

/-!
# Output queue discipline

Over every run of pushes and socket progress: the wire carries the encodings of
the pushed packets in push order, and the context's buffers are only reused when
the connection has nothing left to write.
-/
namespace TmmsServer
open Lib.Gather

namespace RtmpOut

theorem Grows.stream {s s' : RtmpOut} {n : Nat} {w : List UInt8} (h : Grows s s' n w) :
    s'.stream = s.stream := by
  funext csid
  unfold RtmpOut.stream
  rw [h.headers, h.deltas]

theorem stream_setStream_eq (s : RtmpOut) (csid : UInt32) (o : OutStream) :
    (s.setStream csid o).stream = Function.update s.stream csid o := by
  funext c
  by_cases hc : c = csid
  · subst hc
    rw [stream_setStream, Function.update_self]
  · rw [stream_setStream_ne s o hc, Function.update_of_ne hc]

/-- `Send` took the packets `ps` off the queue of `s` and laid down their encodings. -/
structure Sent (s s' : RtmpOut) (ps : List Packet) : Prop where
  queue : ps ++ s'.outWaitingQueue = s.outWaitingQueue
  history : s'.stream = OutHistory.nextAll s.stream ps
  sending : s'.sending = s.sending
  lays : ∀ w, s.Lays w → s'.Lays (w ++ OutHistory.encodeAll s.stream ps)

theorem sent_nil (s : RtmpOut) : Sent s s [] where
  queue := rfl
  history := rfl
  sending := rfl
  lays w h := by rwa [OutHistory.encodeAll, List.append_nil]

theorem msgLen_of_need {o : OutStream} {header : RtmpMsgHeader} {timestamp : UInt32} {fmt0 : Bool}
    (h : o.headerNeed header timestamp fmt0 ≤ 4096) : header.msgLen.toNat < 2 ^ 31 := by
  have hpos := nextHeader_pos header.csId (o.choose header timestamp fmt0).timestamp
  unfold OutStream.headerNeed at h
  dsimp only at h
  have hcount : continuations header.msgLen.toNat ≤
      (nextHeader header.csId (o.choose header timestamp fmt0).timestamp).length *
        continuations header.msgLen.toNat := Nat.le_mul_of_pos_left _ hpos
  unfold continuations at *
  omega

theorem buildChunk_sent {s : RtmpOut} {p : Packet} (ps : List Packet) {header : RtmpMsgHeader}
    (hp : p.Ready header)
    (hfit : s.outCurrent + OutHistory.need s.stream p ≤ 4096) :
    ∃ s', { s with outWaitingQueue := ps }.buildChunk p 0 false = .ok (s', true) ∧
      s'.outCurrent = s.outCurrent + OutHistory.need s.stream p ∧
      s'.outWaitingQueue = ps ∧ s'.stream = OutHistory.next s.stream p ∧ s'.sending = s.sending ∧
      ∀ w, s.Lays w → s'.Lays (w ++ OutHistory.encode s.stream p) := by
  unfold OutHistory.need at hfit
  unfold OutHistory.need OutHistory.next OutHistory.encode
  rw [hp.ext] at hfit ⊢
  dsimp only at hfit ⊢
  obtain ⟨s', hs', hgrow⟩ := buildChunk_grows (s := { s with outWaitingQueue := ps }) 0 false hp.ext hp.len
    (msgLen_of_need (Nat.le_trans (Nat.le_add_left _ _) hfit)) hfit
  refine ⟨s', hs', hgrow.current, hgrow.queue, ?_, hgrow.sending, fun w hw => ?_⟩
  · rw [hgrow.stream, stream_setStream_eq]
    rfl
  · exact hgrow.lays w (keep_lays p hw)

theorem sendLoop_sent (n : Nat) (s : RtmpOut)
    (hready : ∀ p ∈ s.outWaitingQueue, ∃ header, p.Ready header)
    (hfit : s.outCurrent + OutHistory.needAll s.stream (s.outWaitingQueue.take n) ≤ 4096) :
    ∃ s', sendLoop n s = .ok s' ∧ Sent s s' (s.outWaitingQueue.take n) := by
  induction n generalizing s with
  | zero => exact ⟨s, rfl, sent_nil s⟩
  | succ n ih =>
      unfold sendLoop
      cases hq : s.outWaitingQueue with
      | nil =>
          rw [List.take_nil]
          exact ⟨s, rfl, sent_nil s⟩
      | cons p ps =>
          rw [hq, List.take_succ_cons, OutHistory.needAll] at hfit
          rw [hq] at hready
          obtain ⟨header, hp⟩ := hready p List.mem_cons_self
          obtain ⟨s₁, hs₁, hcurrent, hqueue, hstream, hsending, hlays⟩ :=
            buildChunk_sent (s := s) ps hp (by omega)
          obtain ⟨s₂, hs₂, hsent⟩ := ih s₁
            (by rw [hqueue]; exact fun p' hp' => hready p' (List.mem_cons_of_mem _ hp'))
            (by rw [hcurrent, hqueue, hstream]; omega)
          rw [hqueue] at hsent
          have hrest := hsent.queue
          refine ⟨s₂, by dsimp only; rw [hs₁, ok_bind, hs₂], ?_, ?_, hsent.sending.trans hsending, fun w hw => ?_⟩
          · rw [List.take_succ_cons, List.cons_append, hrest, hqueue, hq]
          · rw [hsent.history, hstream]
            rfl
          · have hall := hsent.lays _ (hlays w hw)
            rwa [hstream, List.append_assoc] at hall

end RtmpOut

/-- A context and connection between two events, after the packets `pushed`. -/
structure Accounted (h₀ : OutHistory) (pushed : List Packet) (o : Outbound) : Prop where
  opened : o.conn.closed = false
  ready : ∀ p ∈ o.ctx.outWaitingQueue, ∃ header, p.Ready header
  bytes : ∃ built pending, pushed = built ++ o.ctx.outWaitingQueue ∧ o.ctx.stream = h₀.nextAll built ∧
    Spells o.ctx.At o.conn.ioVecList pending ∧ o.wire ++ pending = h₀.encodeAll built
  idle : o.ctx.sending = false → o.ctx.Idle ∧ o.conn.ioVecList = []
  cleared : ∀ vs ∈ o.cleared, vs = []

/-- The buffers are clear and nothing is pending; `Send` may start. -/
structure Clear (o : Outbound) : Prop where
  sending : o.ctx.sending = false
  current : o.ctx.outCurrent = 0
  bufs : o.ctx.sendingBufs = []
  drained : o.conn.ioVecList = []

section Steps
variable {h₀ : OutHistory} {pushed : List Packet} {o : Outbound}

/-- `Send` with clear buffers and a queue that is not empty. -/
theorem send_accounted (hclear : Clear o) (hopen : o.conn.closed = false)
    (hready : ∀ p ∈ o.ctx.outWaitingQueue, ∃ header, p.Ready header)
    (hbytes : ∃ built, pushed = built ++ o.ctx.outWaitingQueue ∧ o.ctx.stream = h₀.nextAll built ∧
      o.wire = h₀.encodeAll built)
    (hcleared : ∀ vs ∈ o.cleared, vs = [])
    (hfit : OutHistory.needAll o.ctx.stream (o.ctx.outWaitingQueue.take 10) ≤ 4096) :
    ∃ o', o.send = .ok o' ∧ Accounted h₀ pushed o' := by
  obtain ⟨built, hpushed, hstream, hwire⟩ := hbytes
  obtain ⟨ctx, hctx, hsent⟩ := RtmpOut.sendLoop_sent 10 { o.ctx with sending := true } hready
    (by rw [hclear.current, Nat.zero_add]; exact hfit)
  have hlays := hsent.lays [] ⟨[], by rw [hclear.bufs]; exact .nil, rfl⟩
  have hconn : (o.conn.sendListInLoop (ctx.sendingBufs.map BufferNode.region)).ioVecList =
      ctx.sendingBufs.map BufferNode.region ∧
      (o.conn.sendListInLoop (ctx.sendingBufs.map BufferNode.region)).closed = false := by
    unfold TcpConnection.sendListInLoop
    dsimp only
    rw [if_neg (by rw [hopen]; exact Bool.false_ne_true), hclear.drained, List.nil_append]
    split
    · exact ⟨rfl, hopen⟩
    · exact ⟨rfl, hopen⟩
  refine ⟨{ o with
    ctx := ctx
    conn := o.conn.sendListInLoop (ctx.sendingBufs.map BufferNode.region) }, ?_, ?_⟩
  · unfold Outbound.send
    rw [if_neg (by rw [hclear.sending]; exact Bool.false_ne_true), hctx, ok_bind]
    rfl
  · refine ⟨hconn.2, fun p hp => hready p ?_, ⟨built ++ o.ctx.outWaitingQueue.take 10,
      OutHistory.encodeAll o.ctx.stream (o.ctx.outWaitingQueue.take 10), ?_, ?_, ?_, ?_⟩, fun h => ?_, hcleared⟩
    · have hqueue : o.ctx.outWaitingQueue.take 10 ++ ctx.outWaitingQueue = o.ctx.outWaitingQueue := hsent.queue
      rw [← hqueue]
      exact List.mem_append_right _ hp
    · rw [List.append_assoc, hpushed]
      exact congrArg (built ++ ·) hsent.queue.symm
    · rw [OutHistory.nextAll_append, ← hstream]
      exact hsent.history
    · rw [hconn.1]
      exact hlays.spells
    · rw [OutHistory.encodeAll_append, hwire, hstream]
    · rw [hsent.sending] at h
      exact absurd h nofun

theorem push_accounted (h : Accounted h₀ pushed o) {packet : Packet} {header : RtmpMsgHeader}
    (hp : packet.Ready header) (hfit : (OutEvent.push packet).BatchFits o) :
    ∃ o', o.pushOutQueue packet = .ok o' ∧ Accounted h₀ (pushed ++ [packet]) o' := by
  obtain ⟨built, pending, hpushed, hstream, hpending, hwire⟩ := h.bytes
  have hready : ∀ p ∈ o.ctx.outWaitingQueue ++ [packet], ∃ header, p.Ready header := by
    intro p hmem
    rcases List.mem_append.mp hmem with hmem | hmem
    · exact h.ready p hmem
    · obtain rfl := List.mem_singleton.mp hmem
      exact ⟨header, hp⟩
  have hpushed' : pushed ++ [packet] = built ++ (o.ctx.outWaitingQueue ++ [packet]) := by
    rw [hpushed, List.append_assoc]
  cases hs : o.ctx.sending with
  | true =>
      refine ⟨{ o with ctx := { o.ctx with outWaitingQueue := o.ctx.outWaitingQueue ++ [packet] } }, if_pos hs,
        h.opened, hready, ⟨built, pending, hpushed', hstream, hpending, hwire⟩, fun hidle => ?_, h.cleared⟩
      exact absurd (hs.symm.trans hidle) nofun
  | false =>
      obtain ⟨hidle, hdrained⟩ := h.idle hs
      rw [hdrained] at hpending
      rw [hpending.nil_eq, List.append_nil] at hwire
      exact send_accounted ⟨hidle.sending, hidle.current, hidle.bufs, hdrained⟩ h.opened hready
        ⟨built, hpushed', hstream, hwire⟩ h.cleared (hfit hs)

theorem checkAndSend_accounted (hopen : o.conn.closed = false) (hdrained : o.conn.ioVecList = [])
    (hready : ∀ p ∈ o.ctx.outWaitingQueue, ∃ header, p.Ready header)
    (hbytes : ∃ built, pushed = built ++ o.ctx.outWaitingQueue ∧ o.ctx.stream = h₀.nextAll built ∧
      o.wire = h₀.encodeAll built)
    (hcleared : ∀ vs ∈ o.cleared, vs = [])
    (hfit : OutHistory.needAll o.ctx.stream (o.ctx.outWaitingQueue.take 10) ≤ 4096) :
    ∃ o', o.checkAndSend = .ok o' ∧ Accounted h₀ pushed o' := by
  have hcleared' : ∀ vs ∈ o.conn.ioVecList :: o.cleared, vs = [] := by
    intro vs hvs
    rcases List.mem_cons.mp hvs with rfl | hvs
    · exact hdrained
    · exact hcleared vs hvs
  unfold Outbound.checkAndSend
  dsimp only
  split
  next hempty =>
    obtain ⟨built, hpushed, hstream, hwire⟩ := hbytes
    refine ⟨_, rfl, hopen, hready, ⟨built, [], hpushed, hstream, ?_, ?_⟩, fun _ => ⟨?_, hdrained⟩, hcleared'⟩
    · dsimp only
      rw [hdrained]
      exact .nil
    · rw [List.append_nil]
      exact hwire
    · exact ⟨rfl, List.isEmpty_iff.mp hempty, rfl, rfl, rfl⟩
  next => exact send_accounted ⟨rfl, rfl, rfl, hdrained⟩ hopen hready hbytes hcleared' hfit

theorem onWrite_accounted (h : Accounted h₀ pushed o) {results : List WriteResult}
    (hsoft : .failed ∉ results) (hfit : (OutEvent.onWrite results).BatchFits o) :
    ∃ o', o.onWrite results = .ok o' ∧ Accounted h₀ pushed o' := by
  obtain ⟨built, pending, hpushed, hstream, hpending, hwire⟩ := h.bytes
  have hprogress := TcpConnection.onWrite_progress (RtmpOut.at_holding o.ctx) results h.opened hsoft hpending
  obtain ⟨done, rest, rfl, hdone, hrest⟩ := hprogress.bytes
  obtain ⟨pieces, hpieces, hflat⟩ := RtmpOut.mapM_of_spells hdone
  unfold Outbound.onWrite
  dsimp only
  rw [hpieces, ok_bind, hflat]
  rw [← List.append_assoc] at hwire
  split
  next hcomplete =>
    have hdrained := hprogress.complete hcomplete
    rw [hdrained] at hrest
    rw [hrest.nil_eq, List.append_nil] at hwire
    exact checkAndSend_accounted hprogress.opened hdrained h.ready
      ⟨built, hpushed, hstream, hwire⟩ h.cleared
      (hfit hcomplete)
  next =>
    refine ⟨_, rfl, hprogress.opened, h.ready, ⟨built, rest, hpushed, hstream, hrest, hwire⟩, fun hs => ?_,
      h.cleared⟩
    obtain ⟨hidle, hdrained⟩ := h.idle hs
    refine ⟨hidle, ?_⟩
    have hsame : (o.conn.onWrite results).conn = o.conn := by
      unfold TcpConnection.onWrite
      rw [if_neg (by rw [h.opened]; exact Bool.false_ne_true), if_pos (by rw [hdrained]; rfl)]
    dsimp only
    rw [hsame, hdrained]

end Steps

/-- What a run promises, after the packets `pushed`. -/
structure Disciplined (h₀ : OutHistory) (pushed : List Packet) (o : Outbound) : Prop where
  wire : o.wire <+: h₀.encodeAll pushed
  pending : ∃ bytes, Spells o.ctx.At o.conn.ioVecList bytes ∧
    o.wire ++ (bytes ++ OutHistory.encodeAll o.ctx.stream o.ctx.outWaitingQueue) = h₀.encodeAll pushed
  cleared : ∀ vs ∈ o.cleared, vs = []
  idle : o.ctx.sending = false → o.ctx.outWaitingQueue = [] ∧ o.conn.ioVecList = []

theorem Accounted.disciplined {h₀ : OutHistory} {pushed : List Packet} {o : Outbound}
    (h : Accounted h₀ pushed o) : Disciplined h₀ pushed o := by
  obtain ⟨built, pending, rfl, hstream, hpending, hwire⟩ := h.bytes
  have htotal : o.wire ++ (pending ++ OutHistory.encodeAll o.ctx.stream o.ctx.outWaitingQueue) =
      h₀.encodeAll (built ++ o.ctx.outWaitingQueue) := by
    rw [← List.append_assoc, hwire, hstream, OutHistory.encodeAll_append]
  exact ⟨⟨_, htotal⟩, ⟨pending, hpending, htotal⟩, h.cleared,
    fun hs => ⟨(h.idle hs).1.queue, (h.idle hs).2⟩⟩

theorem step_accounted {h₀ : OutHistory} {pushed : List Packet} {o : Outbound}
    (h : Accounted h₀ pushed o)
    {e : OutEvent} (hsoft : e.Soft) (hready : ∀ p ∈ e.pushed, ∃ header, p.Ready header)
    (hfit : e.BatchFits o) :
    ∃ o', o.step e = .ok o' ∧ Accounted h₀ (pushed ++ e.pushed) o' := by
  cases e with
  | push packet =>
      obtain ⟨header, hp⟩ := hready packet (List.mem_singleton.mpr rfl)
      exact push_accounted h hp hfit
  | onWrite results =>
      change ∃ o', _ ∧ Accounted h₀ (pushed ++ []) o'
      rw [List.append_nil]
      exact onWrite_accounted h hsoft hfit

theorem run_accounted {h₀ : OutHistory} {pushed : List Packet} {o : Outbound}
    (events : List OutEvent) (h : Accounted h₀ pushed o) (hsoft : ∀ e ∈ events, e.Soft)
    (hready : ∀ p ∈ events.flatMap OutEvent.pushed, ∃ header, p.Ready header)
    (hfit : BatchesFit o events) :
    ∃ o', o.run events = .ok o' ∧ Accounted h₀ (pushed ++ events.flatMap OutEvent.pushed) o' := by
  induction events generalizing o pushed with
  | nil =>
      rw [List.flatMap_nil, List.append_nil]
      exact ⟨o, rfl, h⟩
  | cons e events ih =>
      rw [List.flatMap_cons] at hready ⊢
      obtain ⟨o₁, ho₁, h₁⟩ := step_accounted h (hsoft e List.mem_cons_self)
        (fun p hp => hready p (List.mem_append_left _ hp)) hfit.1
      obtain ⟨o₂, ho₂, h₂⟩ := ih h₁ (fun e he => hsoft e (List.mem_cons_of_mem _ he))
        (fun p hp => hready p (List.mem_append_right _ hp)) (hfit.2 o₁ ho₁)
      rw [List.append_assoc] at h₂
      refine ⟨o₂, ?_, h₂⟩
      unfold Outbound.run
      rw [ho₁, ok_bind, ho₂]

theorem accounted_idle {ctx : RtmpOut} (hidle : ctx.Idle) : Accounted ctx.stream [] { ctx } where
  opened := rfl
  ready := by
    intro p hp
    dsimp only at hp
    rw [hidle.queue] at hp
    exact absurd hp List.not_mem_nil
  bytes := ⟨[], [], hidle.queue.symm, rfl, .nil, rfl⟩
  idle _ := ⟨hidle, rfl⟩
  cleared _ hvs := absurd hvs List.not_mem_nil

/-- A body of at most 398 chunks on one of the low chunk streams: ten of these always fit. -/
structure Packet.Light (packet : Packet) (header : RtmpMsgHeader) : Prop extends packet.Ready header where
  low : header.csId < 64
  few : continuations header.msgLen.toNat ≤ 397

theorem OutHistory.needAll_light (h : OutHistory) (ps : List Packet)
    (hlight : ∀ p ∈ ps, ∃ header, p.Light header) : h.needAll ps ≤ 409 * ps.length := by
  induction ps generalizing h with
  | nil => exact Nat.zero_le _
  | cons p ps ih =>
      obtain ⟨header, hp⟩ := hlight p List.mem_cons_self
      have hrest := ih (h.next p) fun p' hp' => hlight p' (List.mem_cons_of_mem _ hp')
      have hneed : h.need p ≤ 12 + continuations header.msgLen.toNat := by
        unfold OutHistory.need
        rw [hp.ext]
        exact headerNeed_short header 0 false hp.low (by decide) (h header.csId)
      have hfew := hp.few
      rw [OutHistory.needAll, List.length_cons]
      omega

theorem push_light {h₀ : OutHistory} {pushed : List Packet} {o : Outbound}
    (h : Accounted h₀ pushed o)
    {packet : Packet} {header : RtmpMsgHeader} (hp : packet.Light header) :
    ∃ o', o.pushOutQueue packet = .ok o' ∧ Accounted h₀ (pushed ++ [packet]) o' := by
  apply push_accounted h hp.toReady
  intro hs
  have hneed := OutHistory.needAll_light o.ctx.stream [packet] fun p hmem => by
    obtain rfl := List.mem_singleton.mp hmem
    exact ⟨header, hp⟩
  rw [(h.idle hs).1.queue, List.nil_append]
  exact Nat.le_trans hneed (by rw [List.length_singleton]; decide)

section Light
variable {h₀ : OutHistory} {pushed : List Packet} {o : Outbound}

theorem batchFits_light (h : Accounted h₀ pushed o)
    (hlight : ∀ p ∈ pushed, ∃ header, p.Light header) {e : OutEvent}
    (hpushed : ∀ p ∈ e.pushed, ∃ header, p.Light header) : e.BatchFits o := by
  have hqueue : ∀ p ∈ o.ctx.outWaitingQueue, ∃ header, p.Light header := by
    obtain ⟨built, -, rfl, -⟩ := h.bytes
    exact fun p hp => hlight p (List.mem_append_right _ hp)
  have hten : ∀ ps : List Packet, (∀ p ∈ ps, ∃ header, p.Light header) →
      OutHistory.needAll o.ctx.stream (ps.take 10) ≤ 4096 := by
    intro ps hps
    have hneed := OutHistory.needAll_light o.ctx.stream (ps.take 10) fun p hp => hps p (List.mem_of_mem_take hp)
    have hcount : (ps.take 10).length ≤ 10 := List.length_take_le 10 ps
    omega
  cases e with
  | push packet =>
      intro _
      refine hten _ fun p hp => ?_
      rcases List.mem_append.mp hp with hp | hp
      · exact hqueue p hp
      · exact hpushed p hp
  | onWrite results => exact fun _ => hten _ hqueue

theorem onWrite_light (h : Accounted h₀ pushed o) (hlight : ∀ p ∈ pushed, ∃ header, p.Light header)
    {results : List WriteResult} (hsoft : .failed ∉ results) :
    ∃ o', o.onWrite results = .ok o' ∧ Accounted h₀ pushed o' :=
  onWrite_accounted h hsoft (batchFits_light h hlight fun _ hp => absurd hp List.not_mem_nil)

theorem batchesFit_light (events : List OutEvent) (h : Accounted h₀ pushed o)
    (hsoft : ∀ e ∈ events, e.Soft) (hlight : ∀ p ∈ pushed, ∃ header, p.Light header)
    (hevents : ∀ p ∈ events.flatMap OutEvent.pushed, ∃ header, p.Light header) :
    BatchesFit o events := by
  induction events generalizing o pushed with
  | nil => trivial
  | cons e events ih =>
      rw [List.flatMap_cons] at hevents
      have hpushed : ∀ p ∈ e.pushed, ∃ header, p.Light header :=
        fun p hp => hevents p (List.mem_append_left _ hp)
      have hfit := batchFits_light h hlight hpushed
      refine ⟨hfit, fun o' ho' => ?_⟩
      obtain ⟨o₁, ho₁, h₁⟩ := step_accounted h (hsoft e List.mem_cons_self)
        (fun p hp => (hpushed p hp).imp fun _ hl => hl.toReady) hfit
      obtain rfl := Except.ok.inj (ho₁.symm.trans ho')
      refine ih h₁ (fun e he => hsoft e (List.mem_cons_of_mem _ he)) (fun p hp => ?_)
        fun p hp => hevents p (List.mem_append_right _ hp)
      rcases List.mem_append.mp hp with hp | hp
      · exact hlight p hp
      · exact hpushed p hp

end Light

/-- Output queue discipline, from an idle context with any history of sent headers. -/
theorem outQueue_discipline (ctx : RtmpOut) (hidle : ctx.Idle) (events : List OutEvent)
    (hsoft : ∀ e ∈ events, e.Soft)
    (hready : ∀ p ∈ events.flatMap OutEvent.pushed, ∃ header, p.Ready header)
    (hfit : BatchesFit { ctx } events) :
    ∃ o, Outbound.run { ctx } events = .ok o ∧
      Disciplined ctx.stream (events.flatMap OutEvent.pushed) o := by
  obtain ⟨o, ho, h⟩ := run_accounted events (accounted_idle hidle) hsoft hready hfit
  exact ⟨o, ho, h.disciplined⟩

theorem audioPacket_light : audioPacket.Light audioHeader :=
  ⟨⟨rfl, by decide, by decide⟩, by decide, by decide⟩

/-- Of two messages the second waits until the fifteen bytes of the first are written. -/
theorem outQueue_discipline_audio :
    ∃ o, Outbound.run {} [.push audioPacket, .push audioPacket, .onWrite [.accepted 7, .again],
        .onWrite [.accepted 8, .accepted 3]] = .ok o ∧
      Disciplined (RtmpOut.stream {}) [audioPacket, audioPacket] o := by
  have hidle : ({} : RtmpOut).Idle := ⟨rfl, rfl, rfl, rfl, rfl⟩
  have hlight : ∀ p ∈ [audioPacket, audioPacket], ∃ header, p.Light header := by
    intro p hp
    obtain rfl : p = audioPacket := by simpa using hp
    exact ⟨_, audioPacket_light⟩
  have hsoft : ∀ e ∈ ([.push audioPacket, .push audioPacket, .onWrite [.accepted 7, .again],
      .onWrite [.accepted 8, .accepted 3]] : List OutEvent), e.Soft := by decide
  exact outQueue_discipline {} hidle _ hsoft (fun p hp => (hlight p hp).imp fun _ hl => hl.toReady)
    (batchesFit_light _ (accounted_idle hidle) hsoft (fun p hp => absurd hp List.not_mem_nil) hlight)

end TmmsServer
