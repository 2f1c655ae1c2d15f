import TmmsServer.Rtmp.ConnectedPair
import TmmsServer.Rtmp.MessageLink

/-!
# From the first byte to the last command

A client and a server of this program shake hands and go through their dialogue, in
every order of reads and writes: the pair is in a handshake that goes on, or in the
dialogue that comes behind it.
-/
namespace TmmsServer
open Lib.Feed

/-! ## What is written -/

theorem writeFront_suffix (front : List UInt8) (results : List WriteResult) :
    (writeFront front results).1 <:+ front := by
  fun_induction writeFront front results with
  | case1 front => exact List.suffix_rfl
  | case2 front n results h ih => exact ih.trans (List.drop_suffix n front)
  | case3 front n results h => exact List.nil_suffix
  | case4 front results => exact List.suffix_rfl
  | case5 front results => exact List.suffix_rfl

namespace ConnectedPeer
variable {p : ConnectedPeer}

theorem writes_bytes {left : List UInt8} (h : left <:+ p.unsent) :
    (p.writes left).taken ++ (p.writes left).unsent = p.taken ++ p.unsent := by
  obtain ⟨front, hfront⟩ := h
  have hlen : p.unsent.length - left.length = front.length := by
    rw [← hfront, List.length_append, Nat.add_sub_cancel]
  unfold writes
  rw [hlen, ← hfront, List.take_left, List.append_assoc]

end ConnectedPeer

/-- The handshake of `s` is what the connection of this role is in. -/
structure ConnectedPeer.Shakes (p : ConnectedPeer) (role : SessionRole) (s : Session) : Prop where
  state : s.ctx.state = .handShake
  fault : s.fault = none
  phase : p.phase = .shaking role s.ctx.handshake s.buf
  bytes : p.taken ++ p.unsent = s.sent.flatten
  pending : s.pending = true ↔ p.unsent ≠ []

/-- Nothing was sent yet. -/
structure Outbound.Unused (o : Outbound) : Prop where
  accounted : Accounted freshHistory [] o
  queue : o.ctx.outWaitingQueue = []
  drained : o.conn.ioVecList = []
  wire : o.wire = []

/-- The server of `s` has gone over to messages, and has read none. -/
structure ConnectedPeer.Waits (p : ConnectedPeer) (server : RtmpServer) (s : Session) : Prop where
  state : s.ctx.state = .message
  phase : ∃ out, p.phase = .talking { ctx := { commands := { server.onNewConnection.ctx.commands with out } } } ∧
    out.Unused
  bytes : p.taken ++ p.unsent = s.sent.flatten
  pending : s.pending = true ↔ p.unsent ≠ []

namespace ConnectedPeer
variable {p : ConnectedPeer} {role : SessionRole} {server : RtmpServer} {s : Session}

theorem Shakes.wire (h : p.Shakes role s) : p.wire = p.taken := by
  unfold ConnectedPeer.wire
  rw [h.phase]

theorem Waits.wire (h : p.Waits server s) : p.wire = p.taken := by
  obtain ⟨out, hphase, hunused⟩ := h.phase
  unfold ConnectedPeer.wire
  rw [hphase]
  exact (congrArg (p.taken ++ ·) hunused.wire).trans (List.append_nil _)

theorem unsent_nil {pending : Bool} {unsent : List UInt8} (h : pending = true ↔ unsent ≠ []) :
    pending = false ↔ unsent = [] := by
  rw [← Bool.not_eq_true, h, not_not]

theorem all_taken {taken unsent : List UInt8} (hbytes : taken ++ unsent = s.sent.flatten)
    (hpending : s.pending = true ↔ unsent ≠ []) (hdone : s.pending = false) :
    unsent = [] ∧ taken = s.sent.flatten := by
  have hnone := (unsent_nil hpending).mp hdone
  rw [hnone, List.append_nil] at hbytes
  exact ⟨hnone, hbytes⟩

theorem server_accounts (h : p.Shakes (.server server) s ∨ p.Waits server s) :
    p.wire = p.taken ∧ p.taken ++ p.unsent = s.sent.flatten ∧ (s.pending = true ↔ p.unsent ≠ []) := by
  rcases h with h | h
  · exact ⟨h.wire, h.bytes, h.pending⟩
  · exact ⟨h.wire, h.bytes, h.pending⟩

theorem taken_accepted (hbytes : p.taken ++ p.unsent = s.sent.flatten) (hpending : s.pending = true ↔ p.unsent ≠ []) :
    p.taken <+: s.accepted := by
  have hlen : p.taken.length ≤ s.sent.flatten.length - bif s.pending then 1 else 0 := by
    rw [← hbytes, List.length_append]
    cases hs : s.pending with
    | false => exact Nat.le_add_right _ _
    | true =>
        have hpos := List.length_pos_iff.mpr (hpending.mp hs)
        rw [cond_true]
        omega
  rw [List.prefix_iff_eq_take, Session.accepted, List.take_take, Nat.min_eq_left hlen, ← hbytes, List.take_left]

theorem Shakes.onWrite (h : p.Shakes role s) (results : List WriteResult) :
    ∃ p', p.onWrite results = .ok p' ∧ (p'.Shakes role s ∨ p'.Shakes role s.complete) := by
  have hfront := writeFront_suffix p.unsent results
  have hphase : ∀ left, (p.writes left).phase = .shaking role s.ctx.handshake s.buf := fun _ => h.phase
  unfold ConnectedPeer.onWrite
  rw [h.phase]
  dsimp only
  split
  next hdone =>
    refine ⟨_, rfl, .inr ?_⟩
    have hpending := h.pending.mpr hdone.1
    have hwritten : (p.writes []).writeComplete =
        { p.writes [] with phase := .shaking role s.ctx.handshake.writeComplete s.buf } := by
      unfold writeComplete
      rw [hphase]
    have hctx : s.ctx.onWriteComplete = { s.ctx with handshake := s.ctx.handshake.writeComplete } := by
      unfold RtmpContext.onWriteComplete
      rw [h.state]
      exact congrArg (RtmpContext.mk · _ _) h.state.symm
    have hcomplete : s.complete = { s with
        ctx := { s.ctx with handshake := s.ctx.handshake.writeComplete }, pending := false } := by
      unfold Session.complete
      rw [if_pos hpending, hctx]
    rw [hwritten, hcomplete]
    refine ⟨h.state, h.fault, rfl, ?_, iff_of_false Bool.false_ne_true (not_not_intro rfl)⟩
    exact (writes_bytes List.nil_suffix).trans h.bytes
  next hmore =>
    refine ⟨_, rfl, .inl ⟨h.state, h.fault, hphase _, (writes_bytes hfront).trans h.bytes, h.pending.trans ?_⟩⟩
    refine ⟨fun hne hnil => hmore ⟨hne, hnil⟩, fun hne hnil => hne ?_⟩
    exact List.suffix_nil.mp (hnil ▸ hfront)

end ConnectedPeer

theorem Outbound.Unused.onWrite {o : Outbound} (h : o.Unused) (results : List WriteResult) :
    o.onWrite results = .ok o := by
  have hconn : o.conn.onWrite results = { conn := o.conn } := by
    unfold TcpConnection.onWrite
    rw [if_neg (by rw [h.accounted.opened]; exact Bool.false_ne_true), if_pos (by rw [h.drained]; rfl)]
  unfold Outbound.onWrite
  rw [hconn]
  dsimp only
  rw [List.mapM_nil]
  change Except.ok { o with wire := o.wire ++ [] } = _
  rw [List.append_nil]

theorem Outbound.Unused.checkAndSend {o : Outbound} (h : o.Unused) :
    ∃ o', o.checkAndSend = .ok o' ∧ o'.Unused := by
  have hempty : o.ctx.outWaitingQueue.isEmpty = true := List.isEmpty_iff.mpr h.queue
  have hstream : o.ctx.stream = freshHistory := by
    obtain ⟨built, -, hpushed, hstream, -⟩ := h.accounted.bytes
    obtain ⟨rfl, -⟩ := List.append_eq_nil_iff.mp hpushed.symm
    exact hstream
  obtain ⟨o', hcall, haccounted⟩ := checkAndSend_accounted h.accounted.opened h.drained h.accounted.ready
    ⟨[], h.queue.symm, hstream, h.wire⟩ h.accounted.cleared (by rw [h.queue]; exact Nat.zero_le _)
  refine ⟨o', hcall, ?_⟩
  unfold Outbound.checkAndSend at hcall
  dsimp only [RtmpOut.reset] at hcall
  rw [if_pos hempty] at hcall
  cases hcall
  exact ⟨haccounted, h.queue, h.drained, h.wire⟩

namespace ConnectedPeer
variable {p : ConnectedPeer} {role : SessionRole} {server : RtmpServer} {s : Session}

theorem Waits.onWrite (h : p.Waits server s) (results : List WriteResult) :
    ∃ p', p.onWrite results = .ok p' ∧ (p'.Waits server s ∨ p'.Waits server s.complete) := by
  obtain ⟨out, hphase, hunused⟩ := h.phase
  have hfront := writeFront_suffix p.unsent results
  unfold ConnectedPeer.onWrite
  rw [hphase]
  dsimp only
  split
  next hnone =>
    refine ⟨{ p with phase := .talking _ }, ?_, .inl ⟨h.state, ⟨out, rfl, hunused⟩, h.bytes, h.pending⟩⟩
    unfold RtmpPeer.onWrite
    rw [hunused.onWrite]
    rfl
  next hsome =>
    split
    next hmore =>
      refine ⟨_, rfl, .inl ⟨h.state, ⟨out, hphase, hunused⟩, (writes_bytes hfront).trans h.bytes, h.pending.trans ?_⟩⟩
      exact iff_of_true hsome hmore
    next hdone =>
      obtain ⟨out', hcall, hunused'⟩ := hunused.checkAndSend
      have hctx : s.ctx.onWriteComplete = s.ctx := by
        unfold RtmpContext.onWriteComplete
        rw [h.state]
      have hcomplete : s.complete = { s with pending := false } := by
        unfold Session.complete
        rw [if_pos (h.pending.mpr hsome), hctx]
      rw [if_pos hunused.drained]
      unfold RtmpPeer.onWriteComplete
      rw [hcall, hcomplete]
      refine ⟨_, rfl, .inr ⟨h.state, ⟨out', rfl, hunused'⟩, ?_, iff_of_false Bool.false_ne_true (not_not_intro rfl)⟩⟩
      exact (writes_bytes List.nil_suffix).trans h.bytes

end ConnectedPeer

/-! ## What is read in the handshake -/

theorem receiveC1S1_sends {hm : HmacSha256} {hs : RtmpHandShake} {nonce : Nonce} {buf : List UInt8}
    {next : HandShakeState} {send : RtmpHandShake → List UInt8} {r : RtmpHandShake.Shaken}
    (h : hs.receiveC1S1 hm nonce buf next send = .ok r) :
    (r.ret = -1 ∨ r.ret = 1) ∧ (r.sent = [] ∨ ∃ packet, r.sent = [packet]) := by
  obtain ⟨c, -, h⟩ := of_bind_ok h
  dsimp only at h
  split at h
  · cases h
    exact ⟨.inl rfl, .inl rfl⟩
  · obtain ⟨hs', -, h⟩ := of_bind_ok h
    cases h
    exact ⟨.inr rfl, .inr ⟨_, rfl⟩⟩

theorem handShake_sends {hm : HmacSha256} {hs : RtmpHandShake} {nonce : Nonce} {buf : List UInt8}
    {r : RtmpHandShake.Shaken} (h : hs.handShake hm nonce buf = .ok r) :
    (r.ret = -1 ∨ r.ret = 1 ∨ r.ret = 0 ∧ (hs.state = .waitC2 ∨ hs.state = .waitS2) ∧ 1536 ≤ buf.length ∧
      r.buf = buf.drop 1536) ∧ (r.sent = [] ∨ ∃ packet, r.sent = [packet]) := by
  unfold RtmpHandShake.handShake at h
  split at h
  next hst =>
    split at h
    · cases h
      exact ⟨.inr (.inl rfl), .inl rfl⟩
    · obtain ⟨hret, hsent⟩ := receiveC1S1_sends h
      exact ⟨hret.imp_right .inl, hsent⟩
  next hst =>
    split at h
    · cases h
      exact ⟨.inr (.inl rfl), .inl rfl⟩
    next hlen =>
      cases h
      exact ⟨.inr (.inr ⟨rfl, .inl hst, Nat.not_lt.mp hlen, rfl⟩), .inr ⟨_, rfl⟩⟩
  next hst =>
    split at h
    · cases h
      exact ⟨.inr (.inl rfl), .inl rfl⟩
    · obtain ⟨hret, hsent⟩ := receiveC1S1_sends h
      exact ⟨hret.imp_right .inl, hsent⟩
  next hst =>
    split at h
    · cases h
      exact ⟨.inr (.inl rfl), .inl rfl⟩
    next hlen =>
      cases h
      exact ⟨.inr (.inr ⟨rfl, .inr hst, Nat.not_lt.mp hlen, rfl⟩), .inl rfl⟩
  next =>
    cases h
    exact ⟨.inr (.inl rfl), .inl rfl⟩

section Deliver
variable {hm : HmacSha256} {s : Session} {nonce : Nonce} {piece : List UInt8}

theorem deliver_fails (hstate : s.ctx.state = .handShake) (hfault : s.fault = none) {e : Fault}
    (hcall : s.ctx.handshake.handShake hm nonce (s.buf ++ piece) = .error e) (sync : Bool) :
    (s.step hm (.deliver piece nonce sync)).fault = some e := by
  have hparse : s.ctx.parse hm nonce sync (s.buf ++ piece) = { ctx := s.ctx, ret := 1, fin := .error e } := by
    unfold RtmpContext.parse
    rw [hstate]
    dsimp only
    rw [hcall]
  rw [step_deliver hfault hparse]
  rfl

theorem deliver_goesOn (hstate : s.ctx.state = .handShake) (hfault : s.fault = none) {r : RtmpHandShake.Shaken}
    (hcall : s.ctx.handshake.handShake hm nonce (s.buf ++ piece) = .ok r) (hret : r.ret = -1 ∨ r.ret = 1)
    (sync : Bool) : s.step hm (.deliver piece nonce sync) = { s with
      ctx := { s.ctx with handshake := if r.sent ≠ [] ∧ sync = true then r.hs.writeComplete else r.hs }
      buf := r.buf
      ret := r.ret
      retrieved := s.retrieved ++ r.retrieved
      sent := s.sent ++ r.sent
      pending := s.pending || (r.sent ≠ [] && !sync) } := by
  obtain ⟨⟨state, hs, inn⟩, buf, ret, retrieved, sent, out, pending, fault⟩ := s
  obtain rfl : state = .handShake := hstate
  obtain rfl : fault = none := hfault
  have hctx : (if r.sent ≠ [] ∧ sync = true then RtmpContext.onWriteComplete ⟨.handShake, r.hs, inn⟩
      else ⟨.handShake, r.hs, inn⟩) =
        ⟨.handShake, if r.sent ≠ [] ∧ sync = true then r.hs.writeComplete else r.hs, inn⟩ := by
    split <;> rfl
  have hparse : RtmpContext.parse hm ⟨.handShake, hs, inn⟩ nonce sync (buf ++ piece) = {
      ctx := ⟨.handShake, if r.sent ≠ [] ∧ sync = true then r.hs.writeComplete else r.hs, inn⟩
      ret := r.ret, retrieved := r.retrieved, sent := r.sent, fin := .ok r.buf } := by
    unfold RtmpContext.parse
    dsimp only at hcall ⊢
    rw [hcall]
    dsimp only
    rw [hctx, if_neg (by rcases hret with h | h <;> rw [h] <;> decide),
      if_neg (by rcases hret with h | h <;> rw [h] <;> decide)]
  rw [step_deliver rfl hparse]
  simp [Session.after, Except.toOption]

theorem deliver_turns (hstate : s.ctx.state = .handShake) (hfault : s.fault = none) {r : RtmpHandShake.Shaken}
    (hcall : s.ctx.handshake.handShake hm nonce (s.buf ++ piece) = .ok r) (hret : r.ret = 0) (sync : Bool) :
    (s.step hm (.deliver piece nonce sync)).ctx.state = .message ∧
      (s.step hm (.deliver piece nonce sync)).sent = s.sent ++ r.sent ∧
      (s.step hm (.deliver piece nonce sync)).pending = (s.pending || (r.sent ≠ [] && !sync)) := by
  obtain ⟨⟨state, hs, inn⟩, buf, ret, retrieved, sent, out, pending, fault⟩ := s
  obtain rfl : state = .handShake := hstate
  have hparse : ∃ p, RtmpContext.parse hm ⟨.handShake, hs, inn⟩ nonce sync (buf ++ piece) = p ∧
      p.ctx.state = .message ∧ p.sent = r.sent := by
    refine ⟨_, rfl, ?_⟩
    unfold RtmpContext.parse
    dsimp only at hcall ⊢
    rw [hcall]
    dsimp only
    rw [if_pos hret]
    split
    · exact ⟨(parseMessages_reading _ _).2.2.2.1, rfl⟩
    · exact ⟨rfl, rfl⟩
  obtain ⟨p, hp, hmessage, hsent⟩ := hparse
  rw [step_deliver hfault hp]
  refine ⟨hmessage, congrArg (sent ++ ·) hsent, ?_⟩
  change (pending || (p.sent ≠ [] && !sync)) = _
  rw [hsent]

end Deliver

namespace ConnectedPeer
variable {p : ConnectedPeer} {role : SessionRole} {s : Session} {hm : HmacSha256} {nonce : Nonce} {piece : List UInt8}

theorem send_idle {hs : RtmpHandShake} {buf : List UInt8} (hphase : p.phase = .shaking role hs buf)
    (hidle : p.unsent = []) (packet : List UInt8) (n : Nat) : p.send packet n = {
      phase := .shaking role (if packet.drop n = [] then hs.writeComplete else hs) buf
      taken := p.taken ++ packet.take n
      unsent := packet.drop n } := by
  unfold send
  rw [if_pos hidle]
  dsimp only
  split
  · unfold writeComplete
    rw [hphase]
  · rw [hphase]

/-- The packet that `HandShake` sends, if it does; `sync` tells whether the socket takes all of it. -/
theorem Shakes.sends (h : p.Shakes role s) {r : RtmpHandShake.Shaken}
    (hcall : s.ctx.handshake.handShake hm nonce (s.buf ++ piece) = .ok r)
    (hposting : s.pending = true → r.sent = []) (n : Nat) : ∃ sync taken unsent,
      r.sent.foldl (fun p packet => p.send packet n) { p with phase := .shaking role r.hs r.buf } = {
        phase := .shaking role (if r.sent ≠ [] ∧ sync = true then r.hs.writeComplete else r.hs) r.buf, taken, unsent } ∧
      taken ++ unsent = s.sent.flatten ++ r.sent.flatten ∧
      ((s.pending || (r.sent ≠ [] && !sync)) = true ↔ unsent ≠ []) := by
  rcases (handShake_sends hcall).2 with hnone | ⟨packet, hone⟩
  · refine ⟨true, p.taken, p.unsent, ?_, ?_, ?_⟩
    · rw [hnone]
      simp
    · rw [hnone, h.bytes]
      exact (List.append_nil _).symm
    · rw [hnone, ← h.pending]
      simp
  · have hpending : s.pending = false := by
      rw [Bool.eq_false_iff]
      intro hpending
      exact absurd (hone.symm.trans (hposting hpending)) (List.cons_ne_nil _ _)
    have hidle : p.unsent = [] := (unsent_nil h.pending).mp hpending
    refine ⟨decide (packet.drop n = []), p.taken ++ packet.take n, packet.drop n, ?_, ?_, ?_⟩
    · rw [hone, List.foldl_cons, List.foldl_nil]
      refine (send_idle (p := { p with phase := .shaking role r.hs r.buf }) rfl hidle packet n).trans ?_
      simp
    · have hbytes := h.bytes
      rw [hidle, List.append_nil] at hbytes
      rw [hone, List.append_assoc, List.take_append_drop, hbytes, List.flatten_singleton]
    · rw [hone, hpending]
      simp

section Reads
variable [Host]

/-- What becomes of a connection in the handshake, next to its session. -/
inductive Reads (role : SessionRole) (s s' : Session) (piece : List UInt8) : Checked ConnectedPeer → Prop
  | fails {e : Fault} (fault : s'.fault ≠ none) : Reads role s s' piece (.error e)
  | shakes {p' : ConnectedPeer} (follows : p'.Shakes role s') : Reads role s s' piece (.ok p')
  | rejects {p' : ConnectedPeer} (state : s'.ctx.state = .handShake) (fault : s'.fault = none) (ret : s'.ret = -1) :
      Reads role s s' piece (.ok p')
  | enters {rest taken unsent : List UInt8} (state : s'.ctx.state = .message)
      (turn : s.ctx.handshake.state = .waitC2 ∨ s.ctx.handshake.state = .waitS2)
      (length : rest.length + 1536 = (s.buf ++ piece).length) (bytes : taken ++ unsent = s'.sent.flatten)
      (pending : s'.pending = true ↔ unsent ≠ []) :
      Reads role s s' piece (do
        let peer ← role.enter
        let peer ← if 0 < rest.length then peer.parse rest else pure peer
        return { phase := .talking peer, taken, unsent })

variable (hm) in
/-- A connection in the handshake does what its session does. -/
theorem Shakes.onMessage (h : p.Shakes role s)
    (hposting : s.pending = true → ∀ buf, s.ctx.handshake.handShake hm nonce buf =
      .ok { hs := s.ctx.handshake, buf, ret := 1 }) (n : Nat) (piece : List UInt8) :
    ∃ sync, Reads role s (s.step hm (.deliver piece nonce sync)) piece (p.onMessage hm nonce n piece) := by
  unfold ConnectedPeer.onMessage
  rw [h.phase]
  dsimp only
  have hfault := h.fault
  cases hcall : s.ctx.handshake.handShake hm nonce (s.buf ++ piece) with
  | error e =>
      refine ⟨true, .fails ?_⟩
      rw [deliver_fails h.state hfault hcall]
      exact Option.some_ne_none e
  | ok r =>
      have hsilent : s.pending = true → r.sent = [] := by
        intro hpending
        obtain rfl := Except.ok.inj (hcall.symm.trans (hposting hpending _))
        rfl
      obtain ⟨sync, taken, unsent, hsend, hbytes, hpending⟩ := h.sends hcall hsilent n
      refine ⟨sync, ?_⟩
      rw [ok_bind, hsend]
      rcases (handShake_sends hcall).1 with hret | hret | ⟨hret, hturn, hlen, hbuf⟩
      · rw [hret, if_neg (by decide), if_pos rfl, deliver_goesOn h.state hfault hcall (.inl hret)]
        exact .rejects h.state hfault hret
      · rw [hret, if_neg (by decide), if_neg (by decide), deliver_goesOn h.state hfault hcall (.inr hret)]
        exact .shakes ⟨h.state, hfault, rfl, by rw [hbytes, List.flatten_append], hpending⟩
      · obtain ⟨hmessage, hsent, hnow⟩ := deliver_turns h.state hfault hcall hret sync
        rw [if_pos hret]
        refine .enters hmessage hturn ?_ (by rw [hbytes, hsent, List.flatten_append]) (by rw [hnow]; exact hpending)
        rw [hbuf, List.length_drop]
        omega

end Reads
end ConnectedPeer

/-! ## The phases of the handshake -/

/-- Next to a session in the handshake: it reads nothing while it writes, and has read its first packet where it
waits for the second. -/
structure Session.Midway (hm : HmacSha256) (s : Session) (arrived : Nat) : Prop where
  posting : s.pending = true → ∀ nonce buf, s.ctx.handshake.handShake hm nonce buf =
    .ok { hs := s.ctx.handshake, buf, ret := 1 }
  ret : s.ret = 1
  second : s.ctx.handshake.state = .waitC2 ∨ s.ctx.handshake.state = .waitS2 → arrived = 1537 + s.buf.length

namespace HandShakePair
variable {hm : HmacSha256} {clientNonce serverNonce : Nonce} {pair : HandShakePair}

theorem Going.client_midway (h : Going hm clientNonce serverNonce pair) (hstate : pair.client.ctx.state = .handShake) :
    pair.client.Midway hm pair.toClient := by
  cases h with
  | @opening pending n h =>
      rw [h.client]
      refine ⟨?_, rfl, ?_⟩
      · rintro (rfl : pending = true) nonce buf
        exact handShake_posting hm nonce (.inl rfl : _ ∨ _ = answerState true)
      · cases pending
        · rintro (h | h) <;> cases h
        · rintro (h | h) <;> cases h
  | answered h =>
      rw [h.client]
      exact ⟨fun h => absurd h Bool.false_ne_true, rfl, by rintro (h | h) <;> cases h⟩
  | @replied pending s2 c2 n h =>
      rw [h.client, h.toClient]
      refine ⟨?_, rfl, fun _ => rfl⟩
      rintro (rfl : pending = true) nonce buf
      exact handShake_posting hm nonce (.inr rfl : _ ∨ _ = answerState true)
  | @closing s2 c2 n h =>
      have hlen : (s2.take n).length = n := List.length_take_of_le (h.s2_length ▸ h.arrived.le)
      rw [h.client, h.toClient]
      exact ⟨fun h => absurd h Bool.false_ne_true, rfl, fun _ => congrArg (1537 + ·) hlen.symm⟩
  | entered h => exact absurd (hstate.symm.trans h.client.state) nofun

theorem Going.server_midway (h : Going hm clientNonce serverNonce pair) (hstate : pair.server.ctx.state = .handShake) :
    pair.server.Midway hm pair.toServer := by
  cases h with
  | opening h =>
      rw [h.server]
      exact ⟨fun h => absurd h Bool.false_ne_true, rfl, by rintro (h | h) <;> cases h⟩
  | @answered pending s2 n h =>
      rw [h.server, h.toServer]
      refine ⟨?_, rfl, fun _ => rfl⟩
      rintro (rfl : pending = true) nonce buf
      exact handShake_posting hm nonce (.inr rfl : _ ∨ _ = answerState false)
  | @replied pending s2 c2 n h =>
      have hlen : (c2.take n).length = n := List.length_take_of_le (h.c2_length ▸ h.arrived.le)
      rw [h.server, h.toServer]
      exact ⟨fun h => absurd h Bool.false_ne_true, rfl, fun _ => congrArg (1537 + ·) hlen.symm⟩
  | closing h => exact absurd (hstate.symm.trans h.server.state) nofun
  | entered h => exact absurd (hstate.symm.trans h.server.state) nofun

theorem Going.client_entered (h : Going hm clientNonce serverNonce pair) (hstate : pair.client.ctx.state = .message) :
    pair.Met := by
  cases h with
  | opening h => rw [h.client] at hstate; cases hstate
  | answered h => rw [h.client] at hstate; cases hstate
  | replied h => rw [h.client] at hstate; cases hstate
  | closing h => rw [h.client] at hstate; cases hstate
  | entered h => exact h

theorem Going.server_entered (h : Going hm clientNonce serverNonce pair) (hstate : pair.server.ctx.state = .message) :
    pair.toServer = 3073 ∧ pair.client.sent.flatten.length = 3073 := by
  cases h with
  | opening h => rw [h.server] at hstate; cases hstate
  | answered h => rw [h.server] at hstate; cases hstate
  | replied h => rw [h.server] at hstate; cases hstate
  | closing h =>
      rw [h.client, h.toServer]
      exact ⟨rfl, by simp [firstPacket_length, h.c2_length]⟩
  | entered h => exact ⟨h.toServer, h.client.sent⟩

end HandShakePair

/-! ## The way of a pair -/

/-- The connection of a side that is in the dialogue. -/
structure ConnectedPeer.Talks (p : ConnectedPeer) (peer : RtmpPeer) : Prop where
  phase : p.phase = .talking peer
  unsent : p.unsent = []
  taken : p.taken.length = 3073

/-- How far a pair has come. -/
inductive Along [Host] (hm : HmacSha256) (client : RtmpClient) (server : RtmpServer) (pair : ConnectedPair) : Prop where
  | shaking {clientNonce serverNonce : Nonce} {shake : HandShakePair}
      (going : HandShakePair.Going hm clientNonce serverNonce shake)
      (clientSide : pair.client.Shakes (.client client) shake.client)
      (serverSide : pair.server.Shakes (.server server) shake.server ∨ pair.server.Waits server shake.server)
      (toServer : pair.toServer = shake.toServer) (toClient : pair.toClient = shake.toClient)
  | talking {inner : RtmpPair} (dialogue : InDialogue client inner) (clientSide : pair.client.Talks inner.client)
      (serverSide : pair.server.Talks inner.server)
      (clientWaits : parseStep inner.client.inn inner.client.buf = .wait inner.client.inn)
      (serverWaits : parseStep inner.server.inn inner.server.buf = .wait inner.server.inn)
      (toServer : pair.toServer = 3073 + inner.toServer) (toClient : pair.toClient = 3073 + inner.toClient)

/-! ### In the dialogue -/

namespace ConnectedPeer.Talks
variable {p : ConnectedPeer} {peer : RtmpPeer}

theorem wire (h : p.Talks peer) : p.wire = p.taken ++ peer.wire := by
  unfold ConnectedPeer.wire
  rw [h.phase]

theorem arriving (h : p.Talks peer) (n k : Nat) :
    RtmpPair.arriving p.wire (3073 + n) k = RtmpPair.arriving peer.wire n k := by
  unfold RtmpPair.arriving
  rw [h.wire, ← h.taken, List.drop_length_add_append]

theorem onWrite (h : p.Talks peer) {results : List WriteResult} {peer' : RtmpPeer}
    (hwrite : peer.onWrite results = .ok peer') :
    ∃ p', p.onWrite results = .ok p' ∧ p'.Talks peer' := by
  refine ⟨{ p with phase := .talking peer' }, ?_, rfl, h.unsent, h.taken⟩
  unfold ConnectedPeer.onWrite
  rw [h.phase]
  dsimp only
  rw [if_pos h.unsent, hwrite]
  rfl

end ConnectedPeer.Talks

section Talking
variable [Host] {hm : HmacSha256} {client : RtmpClient} {server : RtmpServer}

/-- The dialogue begins where the client enters it, with a server that waits. -/
theorem enter_inDialogue (hfit : client.Fits) (server : RtmpServer) {out : Outbound} (hunused : out.Unused) :
    ∃ peer, client.enter = .ok peer ∧ parseStep peer.inn peer.buf = .wait peer.inn ∧
      InDialogue client { client := peer
                          server := { ctx := { commands := { server.onNewConnection.ctx.commands with out } } } } := by
  obtain ⟨pair, hstart, h⟩ := start_inDialogue hfit server
  obtain ⟨peer, henter, hstart⟩ := of_bind_ok hstart
  cases hstart
  have hfresh : peer.inn = {} ∧ peer.buf = [] := by
    obtain ⟨commands, -, henter⟩ := of_bind_ok henter
    cases henter
    exact ⟨rfl, rfl⟩
  obtain ⟨done, rest, hsplit, hcompleted, hpushed, hconverses⟩ := h.serverSide.talk
  refine ⟨peer, henter, ?_, ⟨h.clientSide.talk, h.clientSide.out, h.clientSide.inbox⟩,
    ⟨done, rest, hsplit, hcompleted, hpushed, hconverses.withOut out⟩, hunused.accounted, ?_⟩
  · rw [hfresh.1, hfresh.2]
    exact parseChunk_resumable.empty_wait {}
  · have hinbox := h.serverSide.inbox
    exact ⟨hinbox.delivered_le, hinbox.buf_le, hinbox.inBytes, hinbox.lastLeft, hinbox.row⟩

theorem Side.parse_waits {s s' : Script} {p p' q : RtmpPeer} {n m k : Nat} (hp : Side s p q n) (hq : Side s' q p m)
    (hs' : s'.Sound) (hparse : p.parse (RtmpPair.arriving q.wire n k) = .ok p') :
    parseStep p'.inn p'.buf = .wait p'.inn := by
  obtain ⟨done, first, inn, buf, -, -, hread, hearly, -⟩ := hp.inbox.read (hq.sent_length hs') (hq.arriving_prefix n k)
  have hbuf := hp.inbox.buf_le
  have hN : (p.buf ++ RtmpPair.arriving q.wire n k).length < 2 ^ 31 := by
    rw [List.length_append]
    omega
  unfold RtmpPeer.parse at hparse
  obtain ⟨⟨ctx, inBytes⟩, -, hparse⟩ := of_bind_ok hparse
  rw [hread] at hparse
  dsimp only at hparse
  rw [ok_bind] at hparse
  cases hparse
  rw [parseMessage_eq_drain _ _ hN] at hread
  exact (drain_settled parseChunk_resumable (Nat.le_sub_one_of_lt hN) (by rw [hread])).2

variable (hm) in
theorem ConnectedPeer.Talks.onMessage {p : ConnectedPeer} {peer peer' : RtmpPeer} (h : p.Talks peer)
    {piece : List UInt8} (hparse : peer.parse piece = .ok peer') (nonce : Nonce) (n : Nat) :
    ∃ p', p.onMessage hm nonce n piece = .ok p' ∧ p'.Talks peer' := by
  refine ⟨{ p with phase := .talking peer' }, ?_, rfl, h.unsent, h.taken⟩
  unfold ConnectedPeer.onMessage
  rw [h.phase]
  dsimp only
  rw [hparse]
  rfl

omit [Host] in
theorem RtmpPeer.onWrite_reading {p p' : RtmpPeer} {results : List WriteResult} (h : p.onWrite results = .ok p') :
    p'.inn = p.inn ∧ p'.buf = p.buf := by
  obtain ⟨out, -, h⟩ := of_bind_ok h
  cases h
  exact ⟨rfl, rfl⟩

section Steps
variable {pair : ConnectedPair} {inner : RtmpPair}

/-- A step of the pair is one of the dialogue, or a read that finds nothing. -/
theorem talking_step (hfit : client.Fits) (hclient : pair.client.Talks inner.client)
    (hserver : pair.server.Talks inner.server) (h : InDialogue client inner)
    (hclientWaits : parseStep inner.client.inn inner.client.buf = .wait inner.client.inn)
    (hserverWaits : parseStep inner.server.inn inner.server.buf = .wait inner.server.inn)
    (htoServer : pair.toServer = 3073 + inner.toServer) (htoClient : pair.toClient = 3073 + inner.toClient)
    (a : SessionStep) : ∃ pair', pair.step hm a = .ok pair' ∧ Along hm client server pair' := by
  cases a with
  | clientWrites turn =>
      obtain ⟨inner', hstep, h'⟩ := step_inDialogue hfit h (.clientWrites turn)
      obtain ⟨peer, hwrite, hstep⟩ := of_bind_ok hstep
      cases hstep
      obtain ⟨p, hp, htalks⟩ := hclient.onWrite hwrite
      obtain ⟨hinn, hbuf⟩ := RtmpPeer.onWrite_reading hwrite
      refine ⟨{ pair with client := p }, ?_, .talking h' htalks hserver ?_ hserverWaits htoServer htoClient⟩
      · rw [ConnectedPair.step, hp]
        rfl
      · dsimp only
        rw [hinn, hbuf]
        exact hclientWaits
  | serverWrites turn =>
      obtain ⟨inner', hstep, h'⟩ := step_inDialogue hfit h (.serverWrites turn)
      obtain ⟨peer, hwrite, hstep⟩ := of_bind_ok hstep
      cases hstep
      obtain ⟨p, hp, htalks⟩ := hserver.onWrite hwrite
      obtain ⟨hinn, hbuf⟩ := RtmpPeer.onWrite_reading hwrite
      refine ⟨{ pair with server := p }, ?_, .talking h' hclient htalks hclientWaits ?_ htoServer htoClient⟩
      · rw [ConnectedPair.step, hp]
        rfl
      · dsimp only
        rw [hinn, hbuf]
        exact hserverWaits
  | clientReads k nonce n =>
      have hpiece : RtmpPair.arriving pair.server.wire pair.toClient k =
          RtmpPair.arriving inner.server.wire inner.toClient k := by
        rw [htoClient, hserver.arriving]
      unfold ConnectedPair.step
      dsimp only
      rw [hpiece]
      split
      · exact ⟨pair, rfl, .talking h hclient hserver hclientWaits hserverWaits htoServer htoClient⟩
      · obtain ⟨inner', hstep, h'⟩ := step_inDialogue hfit h (.clientReads k)
        obtain ⟨peer, hparse, hstep⟩ := of_bind_ok hstep
        cases hstep
        obtain ⟨p, hp, htalks⟩ := hclient.onMessage hm hparse nonce n
        rw [hp]
        refine ⟨_, rfl, .talking h' htalks hserver ?_ hserverWaits htoServer ?_⟩
        · exact h.clientSide.parse_waits h.serverSide client.serverScript_sound hparse
        · dsimp only
          rw [htoClient, Nat.add_assoc]
  | serverReads k nonce n =>
      have hpiece : RtmpPair.arriving pair.client.wire pair.toServer k =
          RtmpPair.arriving inner.client.wire inner.toServer k := by
        rw [htoServer, hclient.arriving]
      unfold ConnectedPair.step
      dsimp only
      rw [hpiece]
      split
      · exact ⟨pair, rfl, .talking h hclient hserver hclientWaits hserverWaits htoServer htoClient⟩
      · obtain ⟨inner', hstep, h'⟩ := step_inDialogue hfit h (.serverReads k)
        obtain ⟨peer, hparse, hstep⟩ := of_bind_ok hstep
        cases hstep
        obtain ⟨p, hp, htalks⟩ := hserver.onMessage hm hparse nonce n
        rw [hp]
        refine ⟨_, rfl, .talking h' hclient htalks hclientWaits ?_ ?_ htoClient⟩
        · exact h.serverSide.parse_waits h.clientSide (client.script_sound hfit) hparse
        · dsimp only
          rw [htoServer, Nat.add_assoc]

/-! ### In the handshake -/

/-- A read that leaves all but a byte of S0S1 behind it. -/
def ConnectedPair.StopsShort (pair : ConnectedPair) : SessionStep → Prop
  | .clientReads k _ _ => pair.toClient + (RtmpPair.arriving pair.server.wire pair.toClient k).length = 1536
  | _ => False

omit [Host] in
theorem arriving_accepted {wire accepted : List UInt8} (h : wire <+: accepted) (n k : Nat) :
    RtmpPair.arriving accepted n (RtmpPair.arriving wire n k).length = RtmpPair.arriving wire n k := by
  obtain ⟨rest, rfl⟩ := h
  have hprefix : RtmpPair.arriving wire n k <+: (wire ++ rest).drop n := by
    rw [List.drop_append]
    exact (List.take_prefix k _).trans (List.prefix_append _ _)
  exact (List.prefix_iff_eq_take.mp hprefix).symm

section Shaking
variable {clientNonce serverNonce : Nonce} {shake : HandShakePair}

variable (hm) in
/-- Where both sessions have met, the client enters the dialogue with a server that waits. -/
theorem met_begins (hfit : client.Fits) (hmet : shake.Met) {taken unsent : List UInt8}
    (bytes : taken ++ unsent = shake.client.sent.flatten) (pending : shake.client.pending = true ↔ unsent ≠ [])
    {p : ConnectedPeer} (hserver : p.Shakes (.server server) shake.server ∨ p.Waits server shake.server) :
    ∃ peer, SessionRole.enter (.client client) = .ok peer ∧ Along hm client server {
      client := { phase := .talking peer, taken, unsent }, server := p, toServer := 3073, toClient := 3073 } := by
  obtain hserver | hserver := hserver
  · exact absurd (hserver.state.symm.trans hmet.server.state) nofun
  obtain ⟨out, hphase, hunused⟩ := hserver.phase
  obtain ⟨peer, henter, hwaits, hdialogue⟩ := enter_inDialogue hfit server hunused
  obtain ⟨hclientSent, htaken⟩ := ConnectedPeer.all_taken bytes pending hmet.clientPending
  obtain ⟨hserverSent, htaken'⟩ := ConnectedPeer.all_taken hserver.bytes hserver.pending hmet.serverPending
  refine ⟨peer, henter, .talking hdialogue ⟨rfl, hclientSent, ?_⟩ ⟨hphase, hserverSent, ?_⟩ hwaits
    (parseChunk_resumable.empty_wait {}) rfl rfl⟩
  · dsimp only
    rw [htaken]
    exact hmet.client.sent
  · dsimp only
    rw [htaken']
    exact hmet.server.sent

omit [Host] in
theorem going_serverReads (hgoing : HandShakePair.Going hm clientNonce serverNonce shake) (k : Nat) (nonce : Nonce)
    (sync : Bool) : HandShakePair.Going hm clientNonce serverNonce (shake.step hm (.serverReads k nonce sync)) := by
  rcases hgoing.step (.serverReads k nonce sync) with h | ⟨hbyte, -⟩
  · exact h
  · refine absurd ?_ hgoing.sound.2.2
    rw [← hbyte]
    unfold HandShakePair.step
    dsimp only
    split <;> rfl

omit [Host] in
theorem going_writes (hgoing : HandShakePair.Going hm clientNonce serverNonce shake) :
    HandShakePair.Going hm clientNonce serverNonce (shake.step hm .clientWrites) ∧
      HandShakePair.Going hm clientNonce serverNonce (shake.step hm .serverWrites) := by
  constructor
  · exact (hgoing.step .clientWrites).resolve_right fun h => hgoing.sound.2.2 h.1
  · exact (hgoing.step .serverWrites).resolve_right fun h => hgoing.sound.2.2 h.1

variable (hgoing : HandShakePair.Going hm clientNonce serverNonce shake)
  (hclient : pair.client.Shakes (.client client) shake.client)
  (hserver : pair.server.Shakes (.server server) shake.server ∨ pair.server.Waits server shake.server)
  (htoServer : pair.toServer = shake.toServer) (htoClient : pair.toClient = shake.toClient)
include hgoing hclient hserver htoServer htoClient

theorem shaking_clientWrites (turn : WriteTurn) :
    ∃ pair', pair.step hm (.clientWrites turn) = .ok pair' ∧ Along hm client server pair' := by
  obtain ⟨p, hp, hsame | hdone⟩ := hclient.onWrite turn.1
  · refine ⟨{ pair with client := p }, ?_, .shaking hgoing hsame hserver htoServer htoClient⟩
    rw [ConnectedPair.step, hp]
    rfl
  · refine ⟨{ pair with client := p }, ?_, .shaking (going_writes hgoing).1 hdone hserver htoServer htoClient⟩
    rw [ConnectedPair.step, hp]
    rfl

theorem shaking_serverWrites (turn : WriteTurn) :
    ∃ pair', pair.step hm (.serverWrites turn) = .ok pair' ∧ Along hm client server pair' := by
  have hwrite : ∃ p, pair.server.onWrite turn.1 = .ok p ∧
      ((p.Shakes (.server server) shake.server ∨ p.Waits server shake.server) ∨
        (p.Shakes (.server server) shake.server.complete ∨ p.Waits server shake.server.complete)) := by
    rcases hserver with h | h
    · obtain ⟨p, hp, hsame | hdone⟩ := h.onWrite turn.1
      · exact ⟨p, hp, .inl (.inl hsame)⟩
      · exact ⟨p, hp, .inr (.inl hdone)⟩
    · obtain ⟨p, hp, hsame | hdone⟩ := h.onWrite turn.1
      · exact ⟨p, hp, .inl (.inr hsame)⟩
      · exact ⟨p, hp, .inr (.inr hdone)⟩
  obtain ⟨p, hp, hsame | hdone⟩ := hwrite
  · refine ⟨{ pair with server := p }, ?_, .shaking hgoing hclient hsame htoServer htoClient⟩
    rw [ConnectedPair.step, hp]
    rfl
  · refine ⟨{ pair with server := p }, ?_, .shaking (going_writes hgoing).2 hclient hdone htoServer htoClient⟩
    rw [ConnectedPair.step, hp]
    rfl

theorem shaking_serverReads (k : Nat) (nonce : Nonce) (n : Nat) :
    ∃ pair', pair.step hm (.serverReads k nonce n) = .ok pair' ∧ Along hm client server pair' := by
  have hpiece := arriving_accepted (ConnectedPeer.taken_accepted hclient.bytes hclient.pending) shake.toServer k
  unfold ConnectedPair.step
  dsimp only
  rw [hclient.wire, htoServer]
  generalize RtmpPair.arriving pair.client.taken shake.toServer k = piece at hpiece
  split
  · exact ⟨pair, rfl, .shaking hgoing hclient hserver htoServer htoClient⟩
  next hne =>
    have hshake : ∀ sync, shake.step hm (.serverReads piece.length nonce sync) = { shake with
        server := shake.server.step hm (.deliver piece nonce sync), toServer := shake.toServer + piece.length } := by
      intro sync
      unfold HandShakePair.step
      dsimp only
      rw [hpiece, if_neg hne]
    rcases hserver with hserver | hserver
    · have hmidway := hgoing.server_midway hserver.state
      obtain ⟨sync, hreads⟩ := hserver.onMessage hm (fun h => hmidway.posting h nonce) n piece
      have hgoing' := going_serverReads hgoing piece.length nonce sync
      rw [hshake] at hgoing'
      generalize pair.server.onMessage hm nonce n piece = result at hreads
      cases hreads with
      | fails fault => exact absurd hgoing'.sound.2.1 fault
      | shakes follows =>
          exact ⟨_, rfl, .shaking hgoing' hclient (.inl follows) rfl htoClient⟩
      | rejects state fault ret => exact absurd (ret.symm.trans (hgoing'.server_midway state).ret) (by decide)
      | @enters rest taken unsent state turn length bytes pending =>
          obtain ⟨hall, -⟩ := hgoing'.server_entered state
          have hread := hmidway.second turn
          dsimp only at hall
          rw [List.length_append] at length
          obtain rfl : rest = [] := List.length_eq_zero_iff.mp (by omega)
          have hfresh : ({} : Outbound).Unused := ⟨accounted_idle ⟨rfl, rfl, rfl, rfl, rfl⟩, rfl, rfl, rfl⟩
          refine ⟨_, rfl, .shaking hgoing' hclient (.inr ⟨state, ⟨{}, rfl, hfresh⟩, bytes, pending⟩) rfl htoClient⟩
    · obtain ⟨hall, hlen⟩ := hgoing.server_entered hserver.state
      refine absurd ?_ hne
      have hnone : shake.client.accepted.drop shake.toServer = [] := by
        refine List.drop_of_length_le ?_
        rw [hall, ← hlen]
        exact List.length_take_le' _ _
      rw [← hpiece, RtmpPair.arriving, hnone, List.take_nil]

theorem shaking_clientReads (hfit : client.Fits) (k : Nat) (nonce : Nonce) (n : Nat) :
    (pair.StopsShort (.clientReads k nonce n) → ∃ e, pair.step hm (.clientReads k nonce n) = .error e) ∧
      (¬ pair.StopsShort (.clientReads k nonce n) →
        ∃ pair', pair.step hm (.clientReads k nonce n) = .ok pair' ∧ Along hm client server pair') := by
  obtain ⟨hwire, hbytes, hpending⟩ := ConnectedPeer.server_accounts hserver
  have htaken : pair.server.wire <+: shake.server.accepted := by
    rw [hwire]
    exact ConnectedPeer.taken_accepted hbytes hpending
  have hpiece := arriving_accepted htaken shake.toClient k
  have hmidway := hgoing.client_midway hclient.state
  unfold ConnectedPair.StopsShort ConnectedPair.step
  dsimp only
  rw [htoClient]
  generalize RtmpPair.arriving pair.server.wire shake.toClient k = piece at hpiece
  by_cases hne : piece = []
  · rw [if_pos hne, hne]
    exact ⟨fun hshort => absurd hshort hgoing.sound.2.2,
      fun _ => ⟨pair, rfl, .shaking hgoing hclient hserver htoServer htoClient⟩⟩
  · rw [if_neg hne]
    obtain ⟨sync, hreads⟩ := hclient.onMessage hm (fun h => hmidway.posting h nonce) n piece
    have hshake : shake.step hm (.clientReads piece.length nonce sync) = { shake with
        client := shake.client.step hm (.deliver piece nonce sync), toClient := shake.toClient + piece.length } := by
      unfold HandShakePair.step
      dsimp only
      rw [hpiece, if_neg hne]
    have hnext := hgoing.step (.clientReads piece.length nonce sync)
    rw [hshake] at hnext
    generalize pair.client.onMessage hm nonce n piece = result at hreads
    constructor
    · intro hshort
      have hfailed : (shake.client.step hm (.deliver piece nonce sync)).fault ≠ none := by
        rcases hnext with h | h
        · exact absurd hshort h.sound.2.2
        · exact h.2.client
      cases hreads with
      | fails fault => exact ⟨_, rfl⟩
      | shakes follows => exact absurd follows.fault hfailed
      | rejects state fault ret => exact absurd fault hfailed
      | enters state turn length bytes pending =>
          have hread := hmidway.second turn
          omega
    · intro hlong
      have hgoing' := hnext.resolve_right fun h => hlong h.1
      cases hreads with
      | fails fault => exact absurd hgoing'.sound.1 fault
      | shakes follows => exact ⟨_, rfl, .shaking hgoing' follows hserver htoServer rfl⟩
      | rejects state fault ret => exact absurd (ret.symm.trans (hgoing'.client_midway state).ret) (by decide)
      | @enters rest taken unsent state turn length bytes pending =>
          have hmet := hgoing'.client_entered state
          have hall : shake.toClient + piece.length = 3073 := hmet.toClient
          have hread := hmidway.second turn
          rw [List.length_append] at length
          obtain rfl : rest = [] := List.length_eq_zero_iff.mp (by omega)
          obtain ⟨peer, hcall, halong⟩ := met_begins hm hfit hmet bytes pending hserver
          rw [hcall]
          refine ⟨_, rfl, ?_⟩
          rw [hall, htoServer]
          exact hmet.toServer ▸ halong

end Shaking
end Steps

/-! ### At rest -/

theorem Side.all_read {s s' : Script} {p q : RtmpPeer} {n m : Nat} (hp : Side s p q n) (hq : Side s' q p m)
    (hwaits : parseStep p.inn p.buf = .wait p.inn) (hidle : q.ctx.commands.out.ctx.sending = false)
    (hs' : s'.Sound) (hall : n = q.wire.length) : p.completed = q.pushed.map Packet.asReceived := by
  obtain ⟨done, todo, fin, hsplit, hcompleted, -, htakes, -⟩ := hp.inbox.row
  obtain ⟨built, pending, hpushed, -, hpending, hwire⟩ := hq.out.bytes
  obtain ⟨hctx, hdrained⟩ := hq.out.idle hidle
  rw [hdrained] at hpending
  rw [hpending.nil_eq, List.append_nil] at hwire
  rw [hctx.queue, List.append_nil] at hpushed
  have hdrop : (freshHistory.encodeAll q.pushed).drop n = [] := by
    refine List.drop_of_length_le ?_
    rw [hall, hpushed, ← hwire]
    exact Nat.le_refl _
  have hbuf := hp.inbox.buf_le
  have hshort := hp.inbox.delivered_le
  have hfew := hq.sent_length hs'
  rw [hdrop] at htakes
  have hnoted : noted bodyLength parseStep p.inn p.buf = .wait p.inn := by
    unfold noted
    rw [hwaits]
    rfl
  obtain ⟨-, hnone, -⟩ := (htakes.waiting parseStep_noted (by omega) hnoted).2 rfl
  rw [hcompleted, hsplit, List.map_eq_nil_iff.mp hnone, List.append_nil]

omit [Host] in
/-- Two sides that have answered all they were sent are at the ends of their scripts. -/
theorem scripts_end (client : RtmpClient) {done rest done' rest' : List Exchange}
    (hsplit : client.script.exchanges = done ++ rest) (hsplit' : client.serverScript.exchanges = done' ++ rest')
    (hread : done.length = (done'.flatMap Exchange.replies).length)
    (hread' : done'.length = 2 + (done.flatMap Exchange.replies).length) : rest = [] ∧ rest' = [] := by
  have hlen := congrArg List.length hsplit
  have hlen' := congrArg List.length hsplit'
  have hdone : done = client.script.exchanges.take done.length := by rw [hsplit, List.take_left]
  have hdone' : done' = client.serverScript.exchanges.take done'.length := by rw [hsplit', List.take_left]
  rw [hdone'] at hread
  rw [hdone] at hread'
  rw [List.length_append] at hlen hlen'
  generalize done.length = i at hread hread' hlen
  generalize done'.length = j at hread hread' hlen'
  have hfour : client.serverScript.exchanges.length = 4 := rfl
  have hfive : client.script.exchanges.length = 5 + (streamReplies client.onConnection).length := by
    rw [RtmpClient.script, List.length_append, List.length_map]
    rfl
  have hj : j ≤ 4 := by omega
  -- up to the third message of the client, its reader has the next one to answer
  obtain rfl : j = 4 := by
    obtain _ | _ | _ | _ | j := j
    · obtain rfl : i = 0 := hread
      exact absurd (show 0 = 2 from hread') (by decide)
    · obtain rfl : i = 0 := hread
      exact absurd (show 1 = 2 from hread') (by decide)
    · obtain rfl : i = 4 := hread
      exact absurd (show 2 = 3 from hread') (by decide)
    · obtain rfl : i = 5 := hread
      exact absurd (show 3 = 4 from hread') (by decide)
    · omega
  have hi : i = 5 + (streamReplies client.onConnection).length := by
    rw [hread, RtmpClient.serverScript]
    simp [connectReplies]
    omega
  exact ⟨List.length_eq_zero_iff.mp (by omega), List.length_eq_zero_iff.mp (by omega)⟩

/-- When nothing is on its way any more, each side has read the script of the other. -/
theorem dialogue_ends (hfit : client.Fits) {inner : RtmpPair} (h : InDialogue client inner)
    (hclientWaits : parseStep inner.client.inn inner.client.buf = .wait inner.client.inn)
    (hserverWaits : parseStep inner.server.inn inner.server.buf = .wait inner.server.inn)
    (hclientIdle : inner.client.ctx.commands.out.ctx.sending = false)
    (hserverIdle : inner.server.ctx.commands.out.ctx.sending = false)
    (htoServer : inner.toServer = inner.client.wire.length) (htoClient : inner.toClient = inner.server.wire.length) :
    inner.client.completed = client.serverScript.sent.map Packet.asReceived ∧
      inner.server.completed = client.script.sent.map Packet.asReceived := by
  have hread := h.clientSide.all_read h.serverSide hclientWaits hserverIdle client.serverScript_sound htoClient
  have hread' := h.serverSide.all_read h.clientSide hserverWaits hclientIdle (client.script_sound hfit) htoServer
  obtain ⟨done, rest, hsplit, hcompleted, hpushed, -⟩ := h.clientSide.talk
  obtain ⟨done', rest', hsplit', hcompleted', hpushed', -⟩ := h.serverSide.talk
  have hcount := congrArg List.length (hcompleted.symm.trans hread)
  have hcount' := congrArg List.length (hcompleted'.symm.trans hread')
  rw [hpushed', List.length_map, List.length_map] at hcount
  rw [hpushed, List.length_map, List.length_map, List.length_append] at hcount'
  obtain ⟨rfl, rfl⟩ := scripts_end client hsplit hsplit' hcount hcount'
  rw [List.append_nil] at hsplit hsplit'
  rw [hread, hread', hpushed, hpushed', ← hsplit, ← hsplit']
  exact ⟨rfl, rfl⟩

end Talking

/-! ## Runs -/

/-- Neither side gives up; the client goes over to messages behind the server, and what each side has read is what
the other pushed. -/
structure ConnectedPair.Sound (pair : ConnectedPair) : Prop where
  client : pair.client.phase ≠ .closed
  server : pair.server.phase ≠ .closed
  talking : ∀ p, pair.client.phase = .talking p →
    ∃ q, pair.server.phase = .talking q ∧ ChunksAgree p q ∧ ChunksAgree q p
  waiting : ∀ q, pair.server.phase = .talking q →
    (∃ p, pair.client.phase = .talking p) ∨ q.completed = [] ∧ q.buf = [] ∧ q.pushed = []

/-- The connection has nothing to write. -/
def ConnectedPeer.Idle (p : ConnectedPeer) : Prop :=
  p.unsent = [] ∧ ∀ peer, p.phase = .talking peer → peer.ctx.commands.out.ctx.sending = false

/-- Nothing is left to write or to read. -/
structure ConnectedPair.AtRest (pair : ConnectedPair) : Prop where
  client : pair.client.Idle
  server : pair.server.Idle
  toServer : pair.toServer = pair.client.wire.length
  toClient : pair.toClient = pair.server.wire.length

/-- The server has answered the play or publish command of the client. -/
def ConnectedPair.Opened (client : RtmpClient) (pair : ConnectedPair) : Prop :=
  ∃ p q, pair.client.phase = .talking p ∧ pair.server.phase = .talking q ∧
    p.completed = client.serverScript.sent.map Packet.asReceived ∧
    q.completed = client.script.sent.map Packet.asReceived

section Runs
variable [Host] {hm : HmacSha256} {client : RtmpClient} {server : RtmpServer} {pair : ConnectedPair}

/-- No read of a run stops short. -/
def ConnectedPair.NeverShort (hm : HmacSha256) : ConnectedPair → List SessionStep → Prop
  | _, [] => True
  | pair, a :: steps => ¬ pair.StopsShort a ∧ ∀ pair', pair.step hm a = .ok pair' → NeverShort hm pair' steps

theorem Along.sound (hfit : client.Fits) (h : Along hm client server pair) : pair.Sound := by
  cases h with
  | shaking going clientSide serverSide =>
      have hclient : ∀ p, pair.client.phase ≠ .talking p := by
        intro p
        rw [clientSide.phase]
        exact nofun
      refine ⟨by rw [clientSide.phase]; exact nofun, ?_, fun p hp => absurd hp (hclient p), fun q hq => .inr ?_⟩
      · rcases serverSide with h | h
        · rw [h.phase]
          exact nofun
        · obtain ⟨out, hphase, -⟩ := h.phase
          rw [hphase]
          exact nofun
      · rcases serverSide with h | h
        · exact absurd (h.phase.symm.trans hq) nofun
        · obtain ⟨out, hphase, -⟩ := h.phase
          obtain rfl := SessionPhase.talking.inj (hphase.symm.trans hq)
          exact ⟨rfl, rfl, rfl⟩
  | talking dialogue clientSide serverSide =>
      refine ⟨by rw [clientSide.phase]; exact nofun, by rw [serverSide.phase]; exact nofun, fun p hp => ?_,
        fun q hq => .inl ⟨_, clientSide.phase⟩⟩
      obtain rfl := SessionPhase.talking.inj (clientSide.phase.symm.trans hp)
      exact ⟨_, serverSide.phase, dialogue.serverSide.agree dialogue.clientSide (client.script_sound hfit),
        dialogue.clientSide.agree dialogue.serverSide client.serverScript_sound⟩

/-- The handshake does not come to rest before its end. -/
theorem Along.opened (hfit : client.Fits) (h : Along hm client server pair) (hrest : pair.AtRest) :
    pair.Opened client := by
  have hclient := hrest.toServer
  have hserver := hrest.toClient
  cases h with
  | @shaking clientNonce serverNonce shake going clientSide serverSide toServer toClient =>
      obtain ⟨hwire, hbytes, hpending⟩ := ConnectedPeer.server_accounts serverSide
      have hclientPending := (ConnectedPeer.unsent_nil clientSide.pending).mpr hrest.client.1
      have hserverPending := (ConnectedPeer.unsent_nil hpending).mpr hrest.server.1
      obtain ⟨-, hclientTaken⟩ := ConnectedPeer.all_taken clientSide.bytes clientSide.pending hclientPending
      obtain ⟨-, hserverTaken⟩ := ConnectedPeer.all_taken hbytes hpending hserverPending
      rw [clientSide.wire, hclientTaken, toServer] at hclient
      rw [hwire, hserverTaken, toClient] at hserver
      have hmet := going.met ⟨hclientPending, hserverPending, hclient, hserver⟩
      exact absurd (clientSide.state.symm.trans hmet.client.state) nofun
  | @talking inner dialogue clientSide serverSide clientWaits serverWaits toServer toClient =>
      rw [clientSide.wire, List.length_append, clientSide.taken, toServer] at hclient
      rw [serverSide.wire, List.length_append, serverSide.taken, toClient] at hserver
      obtain ⟨hread, hread'⟩ := dialogue_ends hfit dialogue clientWaits serverWaits
        (hrest.client.2 _ clientSide.phase) (hrest.server.2 _ serverSide.phase) (Nat.add_left_cancel hclient)
        (Nat.add_left_cancel hserver)
      exact ⟨_, _, clientSide.phase, serverSide.phase, hread, hread'⟩

/-- A step goes on, or the client reads behind its bytes. -/
theorem Along.step (hfit : client.Fits) (h : Along hm client server pair) (a : SessionStep) :
    (pair.StopsShort a → ∃ e, pair.step hm a = .error e) ∧
      (¬ pair.StopsShort a → ∃ pair', pair.step hm a = .ok pair' ∧ Along hm client server pair') := by
  cases h with
  | shaking going clientSide serverSide toServer toClient =>
      cases a with
      | clientWrites turn =>
          exact ⟨False.elim, fun _ => shaking_clientWrites going clientSide serverSide toServer toClient turn⟩
      | serverWrites turn =>
          exact ⟨False.elim, fun _ => shaking_serverWrites going clientSide serverSide toServer toClient turn⟩
      | clientReads k nonce n => exact shaking_clientReads going clientSide serverSide toServer toClient hfit k nonce n
      | serverReads k nonce n =>
          exact ⟨False.elim, fun _ => shaking_serverReads going clientSide serverSide toServer toClient k nonce n⟩
  | talking dialogue clientSide serverSide clientWaits serverWaits toServer toClient =>
      have hlong : ¬ pair.StopsShort a := by
        cases a with
        | clientWrites turn => exact id
        | serverWrites turn => exact id
        | serverReads k nonce n => exact id
        | clientReads k nonce n =>
            unfold ConnectedPair.StopsShort
            rw [toClient]
            omega
      exact ⟨fun h => absurd h hlong, fun _ =>
        talking_step hfit clientSide serverSide dialogue clientWaits serverWaits toServer toClient a⟩

theorem run_along (hfit : client.Fits) (h : Along hm client server pair) (steps : List SessionStep) :
    (pair.NeverShort hm steps → ∃ fin, pair.run hm steps = .ok fin ∧ Along hm client server fin) ∧
      (¬ pair.NeverShort hm steps → ∃ e, pair.run hm steps = .error e) := by
  unfold ConnectedPair.run
  induction steps generalizing pair with
  | nil => exact ⟨fun _ => ⟨pair, rfl, h⟩, fun hno => absurd trivial hno⟩
  | cons a steps ih =>
      rw [List.foldlM_cons]
      obtain ⟨hshort, hlong⟩ := h.step hfit a
      by_cases hstop : pair.StopsShort a
      · obtain ⟨e, he⟩ := hshort hstop
        rw [he, error_bind]
        exact ⟨fun hnever => absurd hstop hnever.1, fun _ => ⟨e, rfl⟩⟩
      · obtain ⟨pair', hstep, h'⟩ := hlong hstop
        obtain ⟨hgoes, hends⟩ := ih h'
        rw [hstep, ok_bind]
        refine ⟨fun hnever => hgoes (hnever.2 pair' hstep), fun hno => hends fun hnever => hno ⟨hstop, ?_⟩⟩
        intro pair'' hstep'
        obtain rfl := Except.ok.inj (hstep.symm.trans hstep')
        exact hnever

theorem start_along (hm : HmacSha256) (client : RtmpClient) (server : RtmpServer) (clientNonce serverNonce : Nonce)
    (n : Nat) : ∃ pair, ConnectedPair.start hm client server clientNonce serverNonce n = .ok pair ∧
      Along hm client server pair := by
  have hclient := createC1S1_signed hm { isClient := true } clientNonce rfl
  have hserver := createC1S1_signed hm { isClient := false } serverNonce rfl
  let c1s1 := firstPacket hm true clientNonce
  let pending := !decide (c1s1.drop n = [])
  let shake : HandShakePair := {
    client := {
      ctx := { handshake := shakingHands hm true clientNonce [] (bif pending then .postC0C1 else .waitS0S1) }
      sent := [c1s1]
      pending }
    server := { ctx := { handshake := shakingHands hm false serverNonce [] .waitC0C1 } } }
  have hopening : HandShakePair.Opening hm clientNonce serverNonce pending 0 shake :=
    ⟨by decide, rfl, rfl, rfl, rfl⟩
  have hsent := ConnectedPeer.send_idle
    (p := { phase := .shaking (.client client) (shakingHands hm true clientNonce [] .postC0C1) [] }) rfl rfl c1s1 n
  have hstart : ConnectedPeer.start hm (.client client) clientNonce n = .ok {
      phase := .shaking (.client client) shake.client.ctx.handshake []
      taken := c1s1.take n
      unsent := c1s1.drop n } := by
    unfold ConnectedPeer.start
    dsimp only [SessionRole.isClient]
    rw [hclient]
    refine (congrArg Except.ok hsent).trans ?_
    by_cases h : c1s1.drop n = []
    · simp [h, shake, pending, shakingHands, RtmpHandShake.writeComplete]
    · simp [h, shake, pending]
  have hwaiting : ConnectedPeer.start hm (.server server) serverNonce n = .ok {
      phase := .shaking (.server server) shake.server.ctx.handshake [] } := by
    unfold ConnectedPeer.start
    dsimp only [SessionRole.isClient]
    rw [hserver]
    rfl
  unfold ConnectedPair.start
  rw [hstart, hwaiting]
  refine ⟨_, rfl, .shaking (.opening hopening) ⟨rfl, rfl, rfl, ?_, ?_⟩ (.inl ⟨rfl, rfl, rfl, rfl, ?_⟩) rfl rfl⟩
  · simp [shake]
  · simp [shake, pending]
  · simp [shake]

/-- In every order of reads and writes of any lengths, a client and a server of this program shake hands and go through
their dialogue; the run fails exactly if a read of the client stops a byte before the end of S0S1. When nothing is
left to write or to read, the server has answered the last command of the client. -/
theorem pair_opens (hm : HmacSha256) (client : RtmpClient) (server : RtmpServer) (hfit : client.Fits)
    (clientNonce serverNonce : Nonce) (n : Nat) :
    ∃ pair, ConnectedPair.start hm client server clientNonce serverNonce n = .ok pair ∧ ∀ steps : List SessionStep,
      ((∃ fin, pair.run hm steps = .ok fin) ↔ pair.NeverShort hm steps) ∧
      ∀ fin, pair.run hm steps = .ok fin → fin.Sound ∧ (fin.AtRest → fin.Opened client) := by
  obtain ⟨pair, hstart, h⟩ := start_along hm client server clientNonce serverNonce n
  refine ⟨pair, hstart, fun steps => ?_⟩
  obtain ⟨hgoes, hends⟩ := run_along hfit h steps
  refine ⟨⟨fun ⟨fin, hfin⟩ => ?_, fun hnever => (hgoes hnever).imp fun _ => And.left⟩, fun fin hfin => ?_⟩
  · by_contra hno
    obtain ⟨e, he⟩ := hends hno
    exact absurd (hfin.symm.trans he) nofun
  · by_cases hnever : pair.NeverShort hm steps
    · obtain ⟨fin', hrun, halong⟩ := hgoes hnever
      obtain rfl := Except.ok.inj (hrun.symm.trans hfin)
      exact ⟨halong.sound hfit, halong.opened hfit⟩
    · obtain ⟨e, he⟩ := hends hnever
      exact absurd (hfin.symm.trans he) nofun

end Runs

/-! ### A whole run -/

instance (p : ConnectedPeer) : Decidable p.Idle :=
  decidable_of_iff (p.unsent = [] ∧ (match p.phase with
    | .talking peer => !peer.ctx.commands.out.ctx.sending
    | _ => true) = true) (by
      unfold ConnectedPeer.Idle
      cases p.phase <;> simp)

instance (pair : ConnectedPair) : Decidable pair.AtRest :=
  decidable_of_iff (pair.client.Idle ∧ pair.server.Idle ∧ pair.toServer = pair.client.wire.length ∧
      pair.toClient = pair.server.wire.length)
    ⟨fun ⟨hclient, hserver, htoServer, htoClient⟩ => ⟨hclient, hserver, htoServer, htoClient⟩,
      fun h => ⟨h.client, h.server, h.toServer, h.toClient⟩⟩

/-- A digest that is quick to evaluate. -/
def zeroDigest : HmacSha256 where
  digest := fun _ _ => List.replicate 32 0
  length_eq := fun _ _ => List.length_replicate

/-- C0C1 arrives in two parts, and whatever comes then at once. -/
def playSteps : List SessionStep :=
  let turn : WriteTurn := ⟨[.accepted 5000], by decide⟩
  let round : List SessionStep := [.clientWrites turn, .clientWrites turn, .serverReads 5000 {} 5000,
    .serverWrites turn, .serverWrites turn, .clientReads 5000 {} 5000]
  [.serverReads 1000 {} 0, .serverReads 1000 {} 5000, .clientReads 5000 {} 5000, .serverReads 5000 {} 5000,
    .clientReads 5000 {} 5000] ++ round ++ round ++ round

/-- A player and a server, up to the answer to `play`. -/
theorem pair_opens_play : ∃ pair fin,
    ConnectedPair.start zeroDigest { isPlayer := true, url := text "rtmp://a/live/b" } {} {} {} 5000 = .ok pair ∧
      @ConnectedPair.run ⟨fun _ => 0⟩ zeroDigest pair playSteps = .ok fin ∧ fin.Sound ∧ fin.AtRest ∧
      fin.Opened { isPlayer := true, url := text "rtmp://a/live/b" } := by
  obtain ⟨pair, hstart, hall⟩ := @pair_opens ⟨fun _ => 0⟩ zeroDigest { isPlayer := true, url := text "rtmp://a/live/b" }
    {} ⟨⟨_, newMessage_fits (by decide +kernel)⟩, ⟨_, newMessage_fits (by decide +kernel)⟩⟩ {} {} 5000
  have hruns : (ConnectedPair.start zeroDigest { isPlayer := true, url := text "rtmp://a/live/b" } {} {} {} 5000
      |>.toOption.any fun pair => (@ConnectedPair.run ⟨fun _ => 0⟩ zeroDigest pair playSteps).toOption.any
        fun fin => decide fin.AtRest) = true := by decide +kernel
  rw [hstart, Except.toOption, Option.any_some] at hruns
  obtain ⟨fin, hfin, hrest⟩ := (Option.any_eq_true _ _).mp hruns
  have hrun := ok_of_toOption hfin
  have hrest := of_decide_eq_true hrest
  obtain ⟨hsound, hopened⟩ := (hall playSteps).2 fin hrun
  exact ⟨pair, fin, hstart, hrun, hsound, hrest, hopened hrest⟩

end TmmsServer
