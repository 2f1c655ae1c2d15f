import TmmsServer.Rtmp.ChunkBounds
import TmmsServer.Rtmp.HandShakePackets

/-!
# The handshake under any schedule

Deliveries cut anywhere and completed writes placed anywhere, against the outcome
the peer's bytes alone call for.
-/
namespace TmmsServer
open Lib.Feed

/-- What is observed of a session. -/
structure Outcome where
  handshake : HandShakeState
  state : RtmpContextState
  error : Bool
  retrieved : List (List UInt8)
  out : List Packet
  rest : Except Fault (RtmpIn × List UInt8)

def Session.outcome (s : Session) : Outcome where
  handshake := s.ctx.handshake.state
  state := s.ctx.state
  error := s.ret = -1
  retrieved := s.retrieved
  out := s.out
  rest := match s.fault with
    | none => .ok (s.ctx.inn, s.buf)
    | some e => .error e

/-- The states in which a role waits for the first packet, for its answer to be written, and for the
second packet. -/
def firstState (client : Bool) : HandShakeState := bif client then .waitS0S1 else .waitC0C1
def answerState (client : Bool) : HandShakeState := bif client then .postC2 else .postS0S1
def secondState (client : Bool) : HandShakeState := bif client then .waitS2 else .waitC2

/-- The outcome that the bytes of the peer call for, all writes completed: 1537 bytes for the first
packet, 1536 for the second, and chunks from there on. -/
def expected (hm : HmacSha256) (client : Bool) (w : List UInt8) : Outcome :=
  if w.length < 1537 then ⟨firstState client, .handShake, false, [], [], .ok ({}, w)⟩
  else if accepts hm client (w.take 1537) = false then ⟨firstState client, .handShake, true, [], [], .ok ({}, w)⟩
  else if w.length < 3073 then
    ⟨secondState client, .handShake, false, [w.take 1537], [], .ok ({}, w.drop 1537)⟩
  else
    let r := parseMessage {} (w.drop 3073)
    ⟨.done, .message, false, [w.take 1537, (w.drop 1537).take 1536], r.out, r.fin⟩

namespace SessionEvent

/-- The bytes an event brings. -/
def bytes : SessionEvent → List UInt8
  | .deliver piece _ _ => piece
  | .writeComplete => []

/-- The bytes of a packet are complete only while the handshake waits for that packet, one packet at a
time; the client is never left with exactly 1536 bytes of S0S1; the server's S2 is written at once. -/
def Timely (hm : HmacSha256) (s : Session) : SessionEvent → Prop
  | .writeComplete => True
  | .deliver piece _ sync =>
      let buf := s.buf ++ piece
      match s.ctx.state, s.ctx.handshake.state with
      | .handShake, .postC0C1 => buf.length < 1537
      | .handShake, .postS0S1 | .handShake, .postC2 => buf.length < 1536
      | .handShake, .waitC0C1 => accepts hm s.ctx.handshake.isClient (buf.take 1537) = true → buf.length < 3073
      | .handShake, .waitS0S1 => buf.length ≠ 1536 ∧
          (accepts hm s.ctx.handshake.isClient (buf.take 1537) = true → buf.length < 3073)
      | .handShake, .waitC2 => 1536 ≤ buf.length → sync = true
      | _, _ => True

end SessionEvent

/-- Every event of a run is timely. -/
def AllTimely (hm : HmacSha256) : Session → List SessionEvent → Prop
  | _, [] => True
  | s, e :: events => e.Timely hm s ∧ AllTimely hm (s.step hm e) events

/-- A session during the handshake. -/
structure Shaking (client : Bool) (st : HandShakeState) (pending : Bool) (buf : List UInt8)
    (retrieved : List (List UInt8)) (s : Session) : Prop where
  handshake : s.ctx.handshake.state = st
  state : s.ctx.state = .handShake
  isClient : s.ctx.handshake.isClient = client
  inn : s.ctx.inn = {}
  buf : s.buf = buf
  retrieved : s.retrieved = retrieved
  out : s.out = []
  pending : s.pending = pending
  fault : s.fault = none

/-- A session that has done with the bytes `w` what can be done. -/
inductive InSync (hm : HmacSha256) (client : Bool) (w : List UInt8) (s : Session) : Prop where
  | opening (h : Shaking client .postC0C1 true w [] s) (hclient : client = true)
      (hcomplex : s.ctx.handshake.isComplexHandshake = true) (hret : s.ret = 1) (hlen : w.length < 1537)
  | short (h : Shaking client (firstState client) false w [] s)
      (hcomplex : s.ctx.handshake.isComplexHandshake = true) (hret : s.ret = 1) (hlen : w.length < 1537)
  | rejected (h : Shaking client (firstState client) false w [] s)
      (hcomplex : s.ctx.handshake.isComplexHandshake = true) (hret : s.ret = -1)
      (hlen : 1537 ≤ w.length)
      (hno : accepts hm client (w.take 1537) = false)
  | answering (h : Shaking client (answerState client) true (w.drop 1537) [w.take 1537] s) (hret : s.ret = 1)
      (hlo : 1537 ≤ w.length) (hhi : w.length < 3073) (hyes : accepts hm client (w.take 1537) = true)
  | second (h : Shaking client (secondState client) false (w.drop 1537) [w.take 1537] s) (hret : s.ret = 1)
      (hlo : 1537 ≤ w.length) (hhi : w.length < 3073) (hyes : accepts hm client (w.take 1537) = true)
  | messages (hstate : s.ctx.state = .message) (hpending : s.pending = false) (hlo : 3073 ≤ w.length)
      (hyes : accepts hm client (w.take 1537) = true) (houtcome : s.outcome = expected hm client w)

section Expected
variable {hm : HmacSha256} {client : Bool} {w : List UInt8}

theorem expected_short (h : w.length < 1537) :
    expected hm client w = ⟨firstState client, .handShake, false, [], [], .ok ({}, w)⟩ := if_pos h

theorem expected_rejected (h : 1537 ≤ w.length) (hno : accepts hm client (w.take 1537) = false) :
    expected hm client w = ⟨firstState client, .handShake, true, [], [], .ok ({}, w)⟩ := by
  rw [expected, if_neg (Nat.not_lt.mpr h), if_pos hno]

theorem expected_half (hlo : 1537 ≤ w.length) (hhi : w.length < 3073)
    (hyes : accepts hm client (w.take 1537) = true) : expected hm client w =
      ⟨secondState client, .handShake, false, [w.take 1537], [], .ok ({}, w.drop 1537)⟩ := by
  rw [expected, if_neg (Nat.not_lt.mpr hlo), if_neg (by rw [hyes]; exact nofun), if_pos hhi]

theorem expected_messages (hlo : 3073 ≤ w.length) (hyes : accepts hm client (w.take 1537) = true) :
    expected hm client w = ⟨.done, .message, false, [w.take 1537, (w.drop 1537).take 1536],
      (parseMessage {} (w.drop 3073)).out, (parseMessage {} (w.drop 3073)).fin⟩ := by
  rw [expected, if_neg (by omega), if_neg (by rw [hyes]; exact nofun), if_neg (Nat.not_lt.mpr hlo)]

theorem expected_inside (h : w.length < 2 ^ 31) :
    (expected hm client w).rest ≠ .error .outOfBounds := by
  have hdrop : (w.drop 3073).length = w.length - 3073 := List.length_drop
  have hin := parseMessage_inside (u := w.drop 3073) (by omega) bounded_initial
  unfold expected
  split
  · exact nofun
  · split
    · exact nofun
    · split
      · exact nofun
      · intro heq
        dsimp only at heq
        rw [heq] at hin
        exact hin rfl

end Expected

theorem Shaking.outcome {client : Bool} {st : HandShakeState} {pending : Bool} {buf : List UInt8}
    {retrieved : List (List UInt8)} {s : Session} (h : Shaking client st pending buf retrieved s) :
    s.outcome = ⟨st, .handShake, s.ret = -1, retrieved, [], .ok ({}, buf)⟩ := by
  unfold Session.outcome
  rw [h.handshake, h.state, h.retrieved, h.out, h.fault, h.inn, h.buf]

section Steps
variable {hm : HmacSha256} {client pending : Bool} {st : HandShakeState} {w buf piece : List UInt8}
  {retrieved : List (List UInt8)} {s : Session} {nonce : Nonce} {sync : Bool}

theorem complete_pending (h : Shaking client st true buf retrieved s) :
    Shaking client s.ctx.handshake.writeComplete.state false buf retrieved s.complete ∧
      s.complete.ret = s.ret ∧
      s.complete.ctx.handshake = s.ctx.handshake.writeComplete := by
  have hclient : s.ctx.handshake.writeComplete.isClient = s.ctx.handshake.isClient := by
    unfold RtmpHandShake.writeComplete
    split <;> rfl
  obtain ⟨⟨state, hs, inn⟩, b, ret, rd, sent, out, p, fault⟩ := s
  obtain ⟨hst, rfl, hisClient, rfl, rfl, rfl, rfl, rfl, rfl⟩ := h
  exact ⟨⟨rfl, rfl, hclient.trans hisClient, rfl, rfl, rfl, rfl, rfl, rfl⟩, rfl, rfl⟩

theorem complete_idle (h : s.pending = false) : s.complete = s := by
  unfold Session.complete
  rw [h]
  rfl

theorem step_deliver (hfault : s.fault = none) {p : Parsed}
    (hp : s.ctx.parse hm nonce sync (s.buf ++ piece) = p) :
    s.step hm (.deliver piece nonce sync) = s.after sync p := by
  rw [← hp]
  exact if_neg (by rw [hfault]; exact Bool.false_ne_true)

theorem parse_goesOn {hs : RtmpHandShake} {buf : List UInt8} {r : RtmpHandShake.Shaken} (sync : Bool)
    (hcall : hs.handShake hm nonce buf = .ok r) (h0 : r.ret ≠ 0) (h2 : r.ret ≠ 2) :
    RtmpContext.parse hm ⟨.handShake, hs, {}⟩ nonce sync buf = {
      ctx := ⟨.handShake, if r.sent ≠ [] ∧ sync then r.hs.writeComplete else r.hs, {}⟩
      ret := r.ret
      retrieved := r.retrieved
      sent := r.sent
      fin := .ok r.buf } := by
  unfold RtmpContext.parse
  dsimp only
  rw [hcall]
  dsimp only
  rw [if_neg h0, if_neg h2]
  split <;> rfl

theorem step_idle (sync : Bool) (h : Shaking client st pending buf retrieved s) {r : Int}
    (h0 : r ≠ 0) (h2 : r ≠ 2)
    (hcall : s.ctx.handshake.handShake hm nonce (buf ++ piece) =
      .ok { hs := s.ctx.handshake, buf := buf ++ piece, ret := r }) :
    Shaking client st pending (buf ++ piece) retrieved (s.step hm (.deliver piece nonce sync)) ∧
      (s.step hm (.deliver piece nonce sync)).ret = r ∧
      (s.step hm (.deliver piece nonce sync)).ctx.handshake = s.ctx.handshake := by
  obtain ⟨⟨state, hs, inn⟩, b, ret, rd, sent, out, p, fault⟩ := s
  obtain ⟨hst, rfl, hisClient, rfl, rfl, rfl, rfl, rfl, rfl⟩ := h
  have hparse := parse_goesOn sync hcall h0 h2
  rw [step_deliver rfl hparse]
  exact ⟨⟨hst, rfl, hisClient, rfl, rfl, List.append_nil _, rfl, Bool.or_false _, rfl⟩, rfl, rfl⟩

theorem step_answer (h : Shaking client st false buf [] s) {bs : List UInt8}
    {hs' : RtmpHandShake}
    (hcall : s.ctx.handshake.handShake hm nonce (buf ++ piece) = .ok {
      hs := hs'
      buf := (buf ++ piece).drop 1537
      retrieved := [(buf ++ piece).take 1537]
      sent := [bs]
      ret := 1 })
    (hst : hs'.state = answerState client) (hisClient : hs'.isClient = client) :
    Shaking client (bif sync then secondState client else answerState client) (!sync)
        ((buf ++ piece).drop 1537) [(buf ++ piece).take 1537] (s.step hm (.deliver piece nonce sync)) ∧
      (s.step hm (.deliver piece nonce sync)).ret = 1 := by
  obtain ⟨⟨state, hs, inn⟩, b, ret, rd, sent, out, p, fault⟩ := s
  obtain ⟨-, rfl, -, rfl, rfl, rfl, rfl, rfl, rfl⟩ := h
  have hdone : hs'.writeComplete.state = secondState client ∧
      hs'.writeComplete.isClient = client := by
    unfold RtmpHandShake.writeComplete
    rw [hst]
    cases client
    · exact ⟨rfl, hisClient⟩
    · exact ⟨rfl, hisClient⟩
  have hparse := parse_goesOn sync hcall (show (1 : Int) ≠ 0 by decide) (show (1 : Int) ≠ 2 by decide)
  rw [step_deliver rfl hparse]
  cases sync with
  | true => exact ⟨⟨hdone.1, rfl, hdone.2, rfl, rfl, rfl, rfl, rfl, rfl⟩, rfl⟩
  | false => exact ⟨⟨hst, rfl, hisClient, rfl, rfl, rfl, rfl, rfl, rfl⟩, rfl⟩

end Steps

/-- A call on more bytes goes on where the call on the first ones stopped. -/
theorem parseMessage_append {s : RtmpIn} {u v : List UInt8} (h : (u ++ v).length < 2 ^ 31) :
    parseMessage s (u ++ v) = (parseMessage s u).andThen fun s' u' => parseMessage s' (u' ++ v) := by
  have hlen : u.length + v.length < 2 ^ 31 := by rwa [List.length_append] at h
  rw [parseMessage_eq_drain s _ h, parseMessage_eq_drain s u (by omega),
    drain_append parseChunk_resumable (by omega)]
  refine andThen_congr fun s' u' hfin => ?_
  have hle := (drain_settled parseChunk_resumable (by omega) hfin).1
  rw [parseMessage_eq_drain s' _ (by rw [List.length_append]; omega)]

/-- The part of a call of `Parse` that reads chunks. -/
def Parsed.reading (p : Parsed) : Reading RtmpIn UInt8 Packet Fault :=
  ⟨p.out, p.fin.map fun rest => (p.ctx.inn, rest)⟩

theorem parseMessages_reading (ctx : RtmpContext) (buf : List UInt8) :
    (ctx.parseMessages buf).reading = parseMessage ctx.inn buf ∧ (ctx.parseMessages buf).ret = 1 ∧
      (ctx.parseMessages buf).ctx.handshake = ctx.handshake ∧
      (ctx.parseMessages buf).ctx.state = ctx.state ∧
      (ctx.parseMessages buf).sent = [] ∧ (ctx.parseMessages buf).retrieved = [] := by
  unfold RtmpContext.parseMessages Parsed.reading
  dsimp only
  cases h : parseMessage ctx.inn buf with
  | mk out fin =>
      cases fin with
      | ok p => exact ⟨rfl, rfl, rfl, rfl, rfl, rfl⟩
      | error e => exact ⟨rfl, rfl, rfl, rfl, rfl, rfl⟩

theorem after_outcome (s : Session) (sync : Bool) (p : Parsed) : (s.after sync p).outcome =
    ⟨p.ctx.handshake.state, p.ctx.state, p.ret = -1, s.retrieved ++ p.retrieved, s.out ++ p.out, p.reading.fin⟩ := by
  unfold Session.outcome Session.after Parsed.reading
  cases p.fin <;> rfl

theorem parse_turns {hm : HmacSha256} {hs hs' : RtmpHandShake} {nonce : Nonce} (sync : Bool)
    {buf rest : List UInt8} {retrieved sent : List (List UInt8)}
    (hcall : hs.handShake hm nonce buf = .ok { hs := hs', buf := rest, retrieved, sent, ret := 0 }) :
    ∃ p, RtmpContext.parse hm ⟨.handShake, hs, {}⟩ nonce sync buf = p ∧
      p.reading = parseMessage {} rest ∧
      p.ctx.state = .message ∧ p.ctx.handshake = (if sent ≠ [] ∧ sync then hs'.writeComplete else hs') ∧
      p.ret ≠ -1 ∧ p.retrieved = retrieved ∧ p.sent = sent := by
  have hctx : (if sent ≠ [] ∧ sync then RtmpContext.onWriteComplete ⟨.handShake, hs', {}⟩
      else ⟨.handShake, hs', {}⟩) = (⟨.handShake, if sent ≠ [] ∧ sync then hs'.writeComplete else hs', {}⟩ :
        RtmpContext) := by
    split <;> rfl
  refine ⟨_, rfl, ?_⟩
  unfold RtmpContext.parse
  dsimp only
  rw [hcall]
  dsimp only
  rw [hctx, if_pos rfl]
  dsimp only
  generalize (if sent ≠ [] ∧ sync then hs'.writeComplete else hs') = hs''
  by_cases hrest : 0 < rest.length
  · rw [if_pos hrest]
    obtain ⟨hreading, hret, hhs, hstate, -, -⟩ := parseMessages_reading ⟨.message, hs'', {}⟩ rest
    exact ⟨hreading, hstate, hhs, by rw [hret]; decide, rfl, rfl⟩
  · obtain rfl : rest = [] := List.eq_nil_of_length_eq_zero (Nat.eq_zero_of_not_pos hrest)
    rw [if_neg hrest]
    exact ⟨rfl, rfl, rfl, show (0 : Int) ≠ -1 by decide, rfl, rfl⟩

section Calls
variable (hm : HmacSha256) {hs : RtmpHandShake} {client : Bool} (nonce : Nonce) {buf : List UInt8}

/-- The number of bytes below which a role does not look at the first packet. -/
def firstTest (client : Bool) : Nat := bif client then 1536 else 1537

theorem handShake_short (hst : hs.state = firstState client) (h : buf.length < firstTest client) :
    hs.handShake hm nonce buf = .ok { hs, buf, ret := 1 } := by
  unfold RtmpHandShake.handShake
  rw [hst]
  cases client
  · exact if_pos h
  · exact if_pos h

theorem handShake_first (hst : hs.state = firstState client) (h : firstTest client ≤ buf.length) :
    ∃ send, hs.handShake hm nonce buf = hs.receiveC1S1 hm nonce buf (answerState client) send := by
  unfold RtmpHandShake.handShake
  rw [hst]
  cases client
  · exact ⟨_, if_neg (Nat.not_lt.mpr h)⟩
  · exact ⟨_, if_neg (Nat.not_lt.mpr h)⟩

theorem handShake_posting (hst : hs.state = .postC0C1 ∨ hs.state = answerState client) :
    hs.handShake hm nonce buf = .ok { hs, buf, ret := 1 } := by
  unfold RtmpHandShake.handShake
  rcases hst with hst | hst
  · rw [hst]
  · rw [hst]
    cases client <;> rfl

theorem handShake_half (hst : hs.state = secondState client) (h : buf.length < 1536) :
    hs.handShake hm nonce buf = .ok { hs, buf, ret := 1 } := by
  unfold RtmpHandShake.handShake
  rw [hst]
  cases client
  · exact if_pos h
  · exact if_pos h

theorem handShake_second (hst : hs.state = secondState client) (h : 1536 ≤ buf.length) :
    hs.handShake hm nonce buf = .ok {
      hs := { hs with state := bif client then .done else .postS2 }
      buf := buf.drop 1536
      retrieved := [buf.take 1536]
      sent := bif client then [] else [hs.c2s2]
      ret := 0 } := by
  unfold RtmpHandShake.handShake
  rw [hst]
  cases client
  · exact if_neg (Nat.not_lt.mpr h)
  · exact if_neg (Nat.not_lt.mpr h)

end Calls

section Turns
variable (hm : HmacSha256) {client : Bool} {w buf piece : List UInt8} {retrieved : List (List UInt8)} {s : Session}
  (nonce : Nonce) (sync : Bool)

/-- The session goes over to messages; the server's handshake is done only if S2 is written at once. -/
theorem step_second (h : Shaking client (secondState client) false buf retrieved s)
    (hlen : 1536 ≤ (buf ++ piece).length) :
    (s.step hm (.deliver piece nonce sync)).ctx.state = .message ∧
      (s.step hm (.deliver piece nonce sync)).pending = (!client && !sync) ∧
      (s.step hm (.deliver piece nonce sync)).outcome =
        ⟨bif client || sync then .done else .postS2, .message, false, retrieved ++ [(buf ++ piece).take 1536],
          (parseMessage {} ((buf ++ piece).drop 1536)).out, (parseMessage {} ((buf ++ piece).drop 1536)).fin⟩ := by
  obtain ⟨⟨state, hs, inn⟩, b, ret, rd, sent, out, p, fault⟩ := s
  obtain ⟨hst, rfl, hisClient, rfl, rfl, rfl, rfl, rfl, rfl⟩ := h
  obtain ⟨p, hparse, hreading, hstate, hhs, hret, hretrieved, hsent⟩ :=
    parse_turns sync (handShake_second hm nonce hst hlen)
  rw [step_deliver rfl hparse, after_outcome, hreading, hstate, hhs, hretrieved]
  refine ⟨hstate, ?_, ?_⟩
  · change (false || (decide (p.sent ≠ []) && !sync)) = _
    rw [hsent]
    cases client <;> rfl
  · have herror : decide (p.ret = -1) = false := decide_eq_false hret
    have hout : p.out = (parseMessage {} ((b ++ piece).drop 1536)).out :=
      congrArg Reading.out hreading
    rw [herror, hout]
    cases client <;> cases sync <;> rfl

theorem step_messages (hstate : s.ctx.state = .message) (hlo : 3073 ≤ w.length)
    (hyes : accepts hm client (w.take 1537) = true) (houtcome : s.outcome = expected hm client w)
    (hlen : (w ++ piece).length < 2 ^ 31) :
    (s.step hm (.deliver piece nonce sync)).ctx.state = .message ∧
      (s.step hm (.deliver piece nonce sync)).pending = s.pending ∧
      (s.step hm (.deliver piece nonce sync)).outcome = expected hm client (w ++ piece) := by
  have hwlen : w.length + piece.length < 2 ^ 31 := by rwa [List.length_append] at hlen
  have hfirst : (w ++ piece).take 1537 = w.take 1537 := List.take_append_of_le_length (by omega)
  have hsecond : ((w ++ piece).drop 1537).take 1536 = (w.drop 1537).take 1536 := by
    rw [List.drop_append_of_le_length (by omega),
      List.take_append_of_le_length (by rw [List.length_drop]; omega)]
  have hrest : (w ++ piece).drop 3073 = w.drop 3073 ++ piece := List.drop_append_of_le_length hlo
  have happend : parseMessage {} (w.drop 3073 ++ piece) =
      (parseMessage {} (w.drop 3073)).andThen fun s' u' => parseMessage s' (u' ++ piece) :=
    parseMessage_append (by rw [List.length_append, List.length_drop]; omega)
  rw [expected_messages hlo hyes] at houtcome
  rw [expected_messages (by rw [List.length_append]; omega) (by rw [hfirst]; exact hyes), hfirst,
    hsecond, hrest, happend]
  have hhs : s.ctx.handshake.state = .done := congrArg Outcome.handshake houtcome
  have hretrieved : s.retrieved = [w.take 1537, (w.drop 1537).take 1536] :=
    congrArg Outcome.retrieved houtcome
  have hout : s.out = (parseMessage {} (w.drop 3073)).out := congrArg Outcome.out houtcome
  have hfin := congrArg Outcome.rest houtcome
  unfold Session.outcome at hfin
  dsimp only at hfin
  cases hfault : s.fault with
  | some e =>
      have hsame : s.step hm (.deliver piece nonce sync) = s := if_pos (by rw [hfault]; rfl)
      rw [hfault] at hfin
      dsimp only at hfin
      rw [hsame]
      refine ⟨hstate, rfl, houtcome.trans ?_⟩
      unfold Reading.andThen
      rw [← hfin]
      dsimp only
      rw [← hfin]
  | none =>
      rw [hfault] at hfin
      dsimp only at hfin
      obtain ⟨hreading, hret, hhs', hstate', hsent, hretrieved'⟩ :=
        parseMessages_reading s.ctx (s.buf ++ piece)
      have hparse : s.ctx.parse hm nonce sync (s.buf ++ piece) =
          s.ctx.parseMessages (s.buf ++ piece) := by
        unfold RtmpContext.parse
        rw [hstate]
      have hout' : (s.ctx.parseMessages (s.buf ++ piece)).out =
          (parseMessage s.ctx.inn (s.buf ++ piece)).out :=
        congrArg Reading.out hreading
      rw [step_deliver hfault hparse, after_outcome, hreading, hret, hhs', hstate', hretrieved',
        hout', hout, hhs, hstate, hretrieved, List.append_nil]
      refine ⟨hstate'.trans hstate, ?_, ?_⟩
      · change (s.pending || (decide ((s.ctx.parseMessages (s.buf ++ piece)).sent ≠ []) && !sync)) = _
        rw [hsent]
        exact Bool.or_false _
      · unfold Reading.andThen
        rw [← hfin]
        rfl

end Turns

section Timing
variable {hm : HmacSha256} {client pending : Bool} {w buf piece : List UInt8} {retrieved : List (List UInt8)}
  {s : Session} {nonce : Nonce} {sync : Bool}

theorem timely_opening (h : Shaking client .postC0C1 pending buf retrieved s) :
    (SessionEvent.deliver piece nonce sync).Timely hm s ↔ (buf ++ piece).length < 1537 := by
  unfold SessionEvent.Timely
  rw [h.state, h.handshake, h.buf]

theorem timely_answering (h : Shaking client (answerState client) pending buf retrieved s) :
    (SessionEvent.deliver piece nonce sync).Timely hm s ↔ (buf ++ piece).length < 1536 := by
  unfold SessionEvent.Timely
  rw [h.state, h.handshake, h.buf]
  cases client <;> rfl

theorem timely_first (h : Shaking client (firstState client) pending buf retrieved s) :
    (SessionEvent.deliver piece nonce sync).Timely hm s ↔
      (client = true → (buf ++ piece).length ≠ 1536) ∧
        (accepts hm client ((buf ++ piece).take 1537) = true → (buf ++ piece).length < 3073) := by
  unfold SessionEvent.Timely
  rw [h.state, h.handshake, h.buf, h.isClient]
  cases client with
  | false => exact ⟨fun ht => ⟨nofun, ht⟩, fun ht => ht.2⟩
  | true => exact ⟨fun ht => ⟨fun _ => ht.1, ht.2⟩, fun ht => ⟨ht.1 rfl, ht.2⟩⟩

theorem timely_second (h : Shaking client (secondState client) pending buf retrieved s) :
    (SessionEvent.deliver piece nonce sync).Timely hm s ↔
      (1536 ≤ (buf ++ piece).length → (client || sync) = true) := by
  unfold SessionEvent.Timely
  rw [h.state, h.handshake, h.buf]
  cases client with
  | false => exact Iff.rfl
  | true => exact ⟨fun _ _ => rfl, fun _ => trivial⟩

theorem step_first (hm : HmacSha256) (nonce : Nonce) (sync : Bool)
    (h : Shaking client (firstState client) false w [] s)
    (hcomplex : s.ctx.handshake.isComplexHandshake = true) (hlen : 1537 ≤ (w ++ piece).length) :
    (accepts hm client ((w ++ piece).take 1537) = false →
      Shaking client (firstState client) false (w ++ piece) [] (s.step hm (.deliver piece nonce sync)) ∧
        (s.step hm (.deliver piece nonce sync)).ret = -1 ∧
        (s.step hm (.deliver piece nonce sync)).ctx.handshake = s.ctx.handshake) ∧
    (accepts hm client ((w ++ piece).take 1537) = true →
      Shaking client (bif sync then secondState client else answerState client) (!sync) ((w ++ piece).drop 1537)
          [(w ++ piece).take 1537] (s.step hm (.deliver piece nonce sync)) ∧
        (s.step hm (.deliver piece nonce sync)).ret = 1) := by
  have htest : firstTest client ≤ (w ++ piece).length := by
    unfold firstTest
    cases client
    · exact hlen
    · exact Nat.le_of_succ_le hlen
  obtain ⟨send, hcall⟩ := handShake_first hm nonce h.handshake htest
  constructor
  · intro hno
    rw [receiveC1S1_reject hlen hcomplex (by rw [h.isClient]; exact hno)] at hcall
    exact step_idle sync h (by decide) (by decide) hcall
  · intro hyes
    obtain ⟨hs', bs, hreceive, hst, hisClient⟩ :=
      receiveC1S1_accept nonce (answerState client) send hlen hcomplex (by rw [h.isClient]; exact hyes)
    exact step_answer h (hcall.trans hreceive) hst (hisClient.trans h.isClient)

theorem step_waits (hm : HmacSha256) (nonce : Nonce) (sync : Bool)
    (h : Shaking client (firstState client) false w [] s)
    (hlen : (w ++ piece).length < firstTest client) :
    Shaking client (firstState client) false (w ++ piece) [] (s.step hm (.deliver piece nonce sync)) ∧
      (s.step hm (.deliver piece nonce sync)).ret = 1 ∧
      (s.step hm (.deliver piece nonce sync)).ctx.handshake = s.ctx.handshake :=
  step_idle sync h (by decide) (by decide) (handShake_short hm nonce h.handshake hlen)

theorem first_inSync (h : Shaking client (firstState client) false w [] s)
    (hcomplex : s.ctx.handshake.isComplexHandshake = true)
    (ht : (SessionEvent.deliver piece nonce sync).Timely hm s) :
    InSync hm client (w ++ piece) (s.step hm (.deliver piece nonce sync)) := by
  obtain ⟨hexact, hbound⟩ := (timely_first h).mp ht
  by_cases hshort : (w ++ piece).length < firstTest client
  · obtain ⟨hs, hret, hhs⟩ := step_waits hm nonce sync h hshort
    refine .short hs (by rw [hhs]; exact hcomplex) hret (Nat.lt_of_lt_of_le hshort ?_)
    cases client <;> decide
  · have hlen : 1537 ≤ (w ++ piece).length := by
      cases client with
      | false => exact Nat.not_lt.mp hshort
      | true => exact Nat.lt_of_le_of_ne (Nat.not_lt.mp hshort) (hexact rfl).symm
    obtain ⟨hreject, haccept⟩ := step_first hm nonce sync h hcomplex hlen
    cases hacc : accepts hm client ((w ++ piece).take 1537) with
    | false =>
        obtain ⟨hs, hret, hhs⟩ := hreject hacc
        exact .rejected hs (by rw [hhs]; exact hcomplex) hret hlen hacc
    | true =>
        obtain ⟨hs, hret⟩ := haccept hacc
        cases sync with
        | true => exact .second hs hret hlen (hbound hacc) hacc
        | false => exact .answering hs hret hlen (hbound hacc) hacc

theorem complete_answer (h : Shaking client (answerState client) true buf retrieved s) :
    Shaking client (secondState client) false buf retrieved s.complete ∧ s.complete.ret = s.ret := by
  obtain ⟨hs, hret, -⟩ := complete_pending h
  have hnext : s.ctx.handshake.writeComplete.state = secondState client := by
    unfold RtmpHandShake.writeComplete
    rw [h.handshake]
    cases client <;> rfl
  rw [hnext] at hs
  exact ⟨hs, hret⟩

theorem complete_fields (s : Session) : s.complete.outcome.error = s.outcome.error ∧
    s.complete.outcome.retrieved = s.outcome.retrieved ∧ s.complete.outcome.rest = s.outcome.rest := by
  have hinn : s.ctx.onWriteComplete.inn = s.ctx.inn := by
    unfold RtmpContext.onWriteComplete
    split <;> rfl
  unfold Session.complete
  split
  · refine ⟨rfl, rfl, ?_⟩
    unfold Session.outcome
    dsimp only
    rw [hinn]
  · exact ⟨rfl, rfl, rfl⟩

/-- Whatever a role makes of 1536 bytes, it is more than waiting for the rest. -/
theorem receiveC1S1_acts (hm : HmacSha256) (nonce : Nonce) (buf : List UInt8) (hs : RtmpHandShake)
    (next : HandShakeState) (send : RtmpHandShake → List UInt8) :
    (∃ e, hs.receiveC1S1 hm nonce buf next send = .error e) ∨
      ∃ r, hs.receiveC1S1 hm nonce buf next send = .ok r ∧
        (r.ret = -1 ∨ r.ret = 1 ∧ r.retrieved ≠ []) := by
  cases hcall : hs.receiveC1S1 hm nonce buf next send with
  | error e => exact .inl ⟨e, rfl⟩
  | ok r =>
      refine .inr ⟨r, rfl, ?_⟩
      unfold RtmpHandShake.receiveC1S1 at hcall
      cases hcheck : checkC1S1 hm hs.isClient hs.isComplexHandshake buf with
      | error e =>
          rw [hcheck, error_bind] at hcall
          exact absurd hcall nofun
      | ok c =>
          rw [hcheck, ok_bind] at hcall
          dsimp only at hcall
          split at hcall
          next =>
            obtain rfl := Except.ok.inj hcall
            exact .inl rfl
          next offset _ =>
            cases hmake : RtmpHandShake.createC2S2 hm { hs with isComplexHandshake := c.isComplex } nonce
                (buf.drop 1) offset with
            | error e =>
                rw [hmake, error_bind] at hcall
                exact absurd hcall nofun
            | ok hs' =>
                rw [hmake, ok_bind] at hcall
                obtain rfl := Except.ok.inj hcall
                exact .inr ⟨rfl, List.cons_ne_nil _ _⟩

/-- The client that has one byte less than S0S1 takes or rejects the packet at once. -/
theorem first_exact (h : Shaking true (firstState true) false w [] s) (hlen : (w ++ piece).length = 1536) :
    (s.step hm (.deliver piece nonce sync)).complete.outcome ≠ expected hm true (w ++ piece) := by
  rw [expected_short (by rw [hlen]; decide)]
  intro heq
  have hfields := complete_fields (s.step hm (.deliver piece nonce sync))
  rw [heq] at hfields
  obtain ⟨send, hcall⟩ := handShake_first hm nonce h.handshake (Nat.le_of_eq hlen.symm)
  obtain ⟨⟨state, hs, inn⟩, b, ret, rd, sent, out, p, fault⟩ := s
  obtain ⟨-, rfl, -, rfl, rfl, rfl, rfl, rfl, rfl⟩ := h
  dsimp only at hcall
  rcases receiveC1S1_acts hm nonce (b ++ piece) hs (answerState true) send with ⟨e, he⟩ | ⟨r, hr, hact⟩
  · rw [he] at hcall
    have hparse : RtmpContext.parse hm ⟨.handShake, hs, {}⟩ nonce sync (b ++ piece) =
        { ctx := ⟨.handShake, hs, {}⟩, ret := 1, fin := .error e } := by
      unfold RtmpContext.parse
      dsimp only
      rw [hcall]
    rw [step_deliver rfl hparse, after_outcome] at hfields
    exact absurd hfields.2.2 nofun
  · rw [hr] at hcall
    have hret : r.ret ≠ 0 ∧ r.ret ≠ 2 := by omega
    rw [step_deliver rfl (parse_goesOn sync hcall hret.1 hret.2), after_outcome] at hfields
    rcases hact with hact | hact
    · exact absurd (hfields.1.trans (decide_eq_true hact)) nofun
    · exact hact.2 hfields.2.1.symm

/-- A delivery that is not timely is felt at once, or as soon as the answer is written. -/
theorem first_late (h : Shaking client (firstState client) false w [] s)
    (hcomplex : s.ctx.handshake.isComplexHandshake = true)
    (ht : ¬ (SessionEvent.deliver piece nonce sync).Timely hm s) :
    (s.step hm (.deliver piece nonce sync)).complete.outcome ≠ expected hm client (w ++ piece) := by
  rw [timely_first h] at ht
  by_cases hexact : client = true ∧ (w ++ piece).length = 1536
  · obtain ⟨rfl, hlen⟩ := hexact
    exact first_exact h hlen
  · have hlate : accepts hm client ((w ++ piece).take 1537) = true ∧
        3073 ≤ (w ++ piece).length := by
      by_contra hno
      exact ht ⟨fun hc hlen => hexact ⟨hc, hlen⟩, fun hacc => Nat.lt_of_not_le fun hlen => hno ⟨hacc, hlen⟩⟩
    obtain ⟨hacc, hlen⟩ := hlate
    obtain ⟨hs, hret⟩ := (step_first hm nonce sync h hcomplex (by omega)).2 hacc
    have hstuck : (s.step hm (.deliver piece nonce sync)).complete.outcome.handshake =
        secondState client := by
      cases sync with
      | true =>
          rw [complete_idle hs.pending]
          exact hs.handshake
      | false => exact (complete_answer hs).1.handshake
    intro heq
    rw [heq, expected_messages hlen hacc] at hstuck
    cases client <;> exact absurd hstuck nofun

theorem complete_opening (h : Shaking true .postC0C1 true buf [] s) :
    Shaking true (firstState true) false buf [] s.complete ∧ s.complete.ret = s.ret ∧
      s.complete.ctx.handshake.isComplexHandshake = s.ctx.handshake.isComplexHandshake := by
  obtain ⟨hs, hret, hhs⟩ := complete_pending h
  have hnext : s.ctx.handshake.writeComplete = { s.ctx.handshake with state := .waitS0S1 } := by
    unfold RtmpHandShake.writeComplete
    rw [h.handshake]
  rw [hnext] at hs hhs
  exact ⟨hs, hret, by rw [hhs]⟩

/-- With its write completed, a session in step shows what the bytes call for. -/
theorem InSync.complete_outcome (h : InSync hm client w s) :
    s.complete.outcome = expected hm client w := by
  cases h with
  | opening h hclient hcomplex hret hlen =>
      subst hclient
      obtain ⟨hs, hret', -⟩ := complete_opening h
      rw [hs.outcome, hret', hret, expected_short hlen]
      rfl
  | short h hcomplex hret hlen =>
      rw [complete_idle h.pending, h.outcome, hret, expected_short hlen]
      rfl
  | rejected h hcomplex hret hlen hno =>
      rw [complete_idle h.pending, h.outcome, hret, expected_rejected hlen hno]
      rfl
  | answering h hret hlo hhi hyes =>
      obtain ⟨hs, hret'⟩ := complete_answer h
      rw [hs.outcome, hret', hret, expected_half hlo hhi hyes]
      rfl
  | second h hret hlo hhi hyes =>
      rw [complete_idle h.pending, h.outcome, hret, expected_half hlo hhi hyes]
      rfl
  | messages hstate hpending hlo hyes houtcome => rwa [complete_idle hpending]

theorem InSync.complete (h : InSync hm client w s) : InSync hm client w s.complete := by
  cases h with
  | opening h hclient hcomplex hret hlen =>
      subst hclient
      obtain ⟨hs, hret', hcomplex'⟩ := complete_opening h
      exact .short hs (hcomplex'.trans hcomplex) (hret'.trans hret) hlen
  | short h hcomplex hret hlen =>
      rw [complete_idle h.pending]
      exact .short h hcomplex hret hlen
  | rejected h hcomplex hret hlen hno =>
      rw [complete_idle h.pending]
      exact .rejected h hcomplex hret hlen hno
  | answering h hret hlo hhi hyes =>
      obtain ⟨hs, hret'⟩ := complete_answer h
      exact .second hs (hret'.trans hret) hlo hhi hyes
  | second h hret hlo hhi hyes =>
      rw [complete_idle h.pending]
      exact .second h hret hlo hhi hyes
  | messages hstate hpending hlo hyes houtcome =>
      rw [complete_idle hpending]
      exact .messages hstate hpending hlo hyes houtcome

theorem take_append_half (piece : List UInt8) (h : 1537 ≤ w.length) :
    (w ++ piece).take 1537 = w.take 1537 ∧
    (w ++ piece).drop 1537 = w.drop 1537 ++ piece ∧
    (w.drop 1537 ++ piece).length + 1537 = (w ++ piece).length := by
  refine ⟨List.take_append_of_le_length h, List.drop_append_of_le_length h, ?_⟩
  rw [List.length_append, List.length_append, List.length_drop]
  omega

theorem second_deliver (h : Shaking client (secondState client) false (w.drop 1537) [w.take 1537] s)
    (hlo : 1537 ≤ w.length) (hyes : accepts hm client (w.take 1537) = true) :
    ((SessionEvent.deliver piece nonce sync).Timely hm s →
      InSync hm client (w ++ piece) (s.step hm (.deliver piece nonce sync))) ∧
    (¬ (SessionEvent.deliver piece nonce sync).Timely hm s →
      (s.step hm (.deliver piece nonce sync)).complete.outcome ≠ expected hm client (w ++ piece)) := by
  obtain ⟨htake, hdrop, hlen⟩ := take_append_half piece hlo
  have hyes' : accepts hm client ((w ++ piece).take 1537) = true := by rwa [htake]
  rw [timely_second h]
  by_cases hhalf : (w.drop 1537 ++ piece).length < 1536
  · refine ⟨fun _ => ?_, fun hno => absurd (fun hge => absurd hhalf (Nat.not_lt.mpr hge)) hno⟩
    obtain ⟨hs, hret, -⟩ := step_idle sync h (by decide) (by decide)
      (handShake_half hm nonce h.handshake hhalf)
    rw [← hdrop, ← htake] at hs
    exact .second hs hret (by omega) (by omega) hyes'
  · obtain ⟨hstate, hpending, houtcome⟩ := step_second hm nonce sync h
      (Nat.not_lt.mp hhalf)
    have hfull : 3073 ≤ (w ++ piece).length := by omega
    rw [← hdrop, List.drop_drop] at houtcome
    constructor
    · intro hsync
      have hor := hsync (Nat.not_lt.mp hhalf)
      refine .messages hstate ?_ hfull hyes' ?_
      · rw [hpending, ← Bool.not_or, hor]
        rfl
      · rw [houtcome, hor, expected_messages hfull hyes', htake]
        rfl
    · intro hno
      have hor : (client || sync) = false := by
        rw [Bool.eq_false_iff]
        exact fun hor => hno fun _ => hor
      intro heq
      have hdone : (s.step hm (.deliver piece nonce sync)).complete.ctx.handshake.state = .postS2 := by
        have hsame : (s.step hm (.deliver piece nonce sync)).complete.ctx.handshake =
            (s.step hm (.deliver piece nonce sync)).ctx.handshake := by
          unfold Session.complete
          split
          · change RtmpContext.handshake (RtmpContext.onWriteComplete _) = _
            unfold RtmpContext.onWriteComplete
            rw [hstate]
          · rfl
        rw [hsame]
        have hpost := congrArg Outcome.handshake houtcome
        rw [hor] at hpost
        exact hpost
      have hexp := congrArg Outcome.handshake heq
      rw [expected_messages hfull hyes'] at hexp
      exact absurd (hdone.symm.trans hexp) nofun

theorem answering_deliver (h : Shaking client (answerState client) true (w.drop 1537) [w.take 1537] s)
    (hlo : 1537 ≤ w.length) (hyes : accepts hm client (w.take 1537) = true) :
    ((SessionEvent.deliver piece nonce sync).Timely hm s →
      InSync hm client (w ++ piece) (s.step hm (.deliver piece nonce sync))) ∧
    (¬ (SessionEvent.deliver piece nonce sync).Timely hm s →
      (s.step hm (.deliver piece nonce sync)).complete.outcome ≠ expected hm client (w ++ piece)) := by
  obtain ⟨htake, hdrop, hlen⟩ := take_append_half piece hlo
  have hyes' : accepts hm client ((w ++ piece).take 1537) = true := by rwa [htake]
  obtain ⟨hs, hret, -⟩ := step_idle sync h (by decide) (by decide)
    (handShake_posting hm nonce (.inr h.handshake))
  rw [timely_answering h]
  constructor
  · intro ht
    rw [← hdrop, ← htake] at hs
    exact .answering hs hret (by omega) (by omega) hyes'
  · intro hno heq
    have hexp := congrArg Outcome.handshake heq
    have hnow : (s.step hm (.deliver piece nonce sync)).complete.outcome.handshake =
        secondState client :=
      (complete_answer hs).1.handshake
    rw [hnow, expected_messages (by omega) hyes'] at hexp
    cases client <;> exact absurd hexp nofun

theorem opening_deliver (h : Shaking true .postC0C1 true w [] s)
    (hcomplex : s.ctx.handshake.isComplexHandshake = true) :
    ((SessionEvent.deliver piece nonce sync).Timely hm s →
      InSync hm true (w ++ piece) (s.step hm (.deliver piece nonce sync))) ∧
    (¬ (SessionEvent.deliver piece nonce sync).Timely hm s →
      (s.step hm (.deliver piece nonce sync)).complete.outcome ≠ expected hm true (w ++ piece)) := by
  obtain ⟨hs, hret, hhs⟩ := step_idle sync h (by decide) (by decide)
    (handShake_posting hm nonce (.inl h.handshake : _ ∨ s.ctx.handshake.state = answerState true))
  rw [timely_opening h]
  constructor
  · intro ht
    exact .opening hs rfl (by rw [hhs]; exact hcomplex) hret ht
  · intro hno heq
    obtain ⟨hs', hret', -⟩ := complete_opening hs
    rw [hs'.outcome, hret', hret, expected, if_neg hno] at heq
    split at heq
    · exact absurd (congrArg Outcome.error heq) nofun
    · split at heq
      · exact absurd (congrArg Outcome.handshake heq) nofun
      · exact absurd (congrArg Outcome.handshake heq) nofun

/-- A timely event keeps a session in step, and one that is not shows as soon as its write is completed. -/
theorem InSync.step (h : InSync hm client w s) (e : SessionEvent)
    (hlen : (w ++ e.bytes).length < 2 ^ 31) :
    (e.Timely hm s → InSync hm client (w ++ e.bytes) (s.step hm e)) ∧
      (¬ e.Timely hm s → (s.step hm e).complete.outcome ≠ expected hm client (w ++ e.bytes)) := by
  cases e with
  | writeComplete =>
      refine ⟨fun _ => ?_, fun hno => absurd trivial hno⟩
      change InSync hm client (w ++ []) _
      rw [List.append_nil]
      exact h.complete
  | deliver piece nonce sync =>
      cases h with
      | opening h hclient hcomplex hret hlen =>
          subst hclient
          exact opening_deliver h hcomplex
      | short h hcomplex hret hlen => exact ⟨first_inSync h hcomplex, first_late h hcomplex⟩
      | rejected h hcomplex hret hlen hno => exact ⟨first_inSync h hcomplex, first_late h hcomplex⟩
      | answering h hret hlo hhi hyes => exact answering_deliver h hlo hyes
      | second h hret hlo hhi hyes => exact second_deliver h hlo hyes
      | messages hstate hpending hlo hyes houtcome =>
          obtain ⟨hstate', hpending', houtcome'⟩ := step_messages hm nonce sync hstate hlo hyes
            houtcome hlen
          refine ⟨fun _ => .messages hstate' (hpending'.trans hpending) ?_ ?_ houtcome', fun hno => ?_⟩
          · rw [SessionEvent.bytes, List.length_append]
            omega
          · rw [SessionEvent.bytes, List.take_append_of_le_length (by omega)]
            exact hyes
          · refine absurd ?_ hno
            unfold SessionEvent.Timely
            rw [hstate]
            trivial

theorem start_inSync (hm : HmacSha256) (client : Bool) (nonce : Nonce) (sync : Bool) :
    ∃ s, Session.start hm client nonce sync = .ok s ∧ InSync hm client [] s := by
  obtain ⟨c1s1, hc1s1⟩ := createC1S1_ok hm { isClient := client } nonce
  unfold Session.start
  rw [hc1s1, ok_bind]
  cases client with
  | false => exact ⟨_, rfl, .short ⟨rfl, rfl, rfl, rfl, rfl, rfl, rfl, rfl, rfl⟩ rfl rfl (by decide)⟩
  | true =>
      cases sync with
      | true => exact ⟨_, rfl, .short ⟨rfl, rfl, rfl, rfl, rfl, rfl, rfl, rfl, rfl⟩ rfl rfl (by decide)⟩
      | false => exact ⟨_, rfl, .opening ⟨rfl, rfl, rfl, rfl, rfl, rfl, rfl, rfl, rfl⟩ rfl rfl rfl (by decide)⟩

end Timing

/-- The bytes the events of a run bring. -/
def delivered (events : List SessionEvent) : List UInt8 := events.flatMap SessionEvent.bytes

/-- Whenever the run stops and the write under way completes, the outcome is what the bytes
delivered call for, and no byte behind them was read. -/
def ScheduleFree (hm : HmacSha256) (client : Bool) (s : Session) (events : List SessionEvent) : Prop :=
  ∀ n, (s.run hm (events.take n)).complete.outcome =
    expected hm client (delivered (events.take n)) ∧
    (s.run hm (events.take n)).complete.outcome.rest ≠ .error .outOfBounds

theorem outcomes_iff {hm : HmacSha256} {client : Bool} {w : List UInt8} {s : Session}
    (events : List SessionEvent) (h : InSync hm client w s)
    (hlen : (w ++ delivered events).length < 2 ^ 31) :
    (∀ n, (s.run hm (events.take n)).complete.outcome = expected hm client (w ++ delivered (events.take n))) ↔
      AllTimely hm s events := by
  induction events generalizing w s with
  | nil =>
      refine ⟨fun _ => trivial, fun _ n => ?_⟩
      rw [List.take_nil, delivered, List.flatMap_nil, List.append_nil]
      exact h.complete_outcome
  | cons e events ih =>
      have hdelivered : ∀ es, w ++ delivered (e :: es) = (w ++ e.bytes) ++ delivered es := fun es => by
        rw [delivered, List.flatMap_cons, List.append_assoc]
        rfl
      rw [hdelivered] at hlen
      have hbound : (w ++ e.bytes).length < 2 ^ 31 := by
        rw [List.length_append] at hlen
        omega
      obtain ⟨hkeep, hlate⟩ := h.step e hbound
      constructor
      · intro hall
        have ht : e.Timely hm s := by
          by_contra hno
          have hone := hall 1
          rw [List.take_succ_cons, List.take_zero, hdelivered, delivered, List.flatMap_nil,
            List.append_nil] at hone
          exact hlate hno hone
        refine ⟨ht, (ih (hkeep ht) hlen).mp fun n => ?_⟩
        have hnext := hall (n + 1)
        rw [List.take_succ_cons, hdelivered] at hnext
        exact hnext
      · rintro ⟨ht, hrest⟩ n
        cases n with
        | zero =>
            rw [List.take_zero, delivered, List.flatMap_nil, List.append_nil]
            exact h.complete_outcome
        | succ n =>
            rw [List.take_succ_cons, hdelivered]
            exact (ih (hkeep ht) hlen).mpr hrest n

theorem InSync.server_waits {hm : HmacSha256} {w : List UInt8} {s : Session} (h : InSync hm false w s)
    (hlen : w.length < 1537) :
    Shaking false (firstState false) false w [] s ∧ s.ctx.handshake.isComplexHandshake = true := by
  cases h with
  | short h hcomplex => exact ⟨h, hcomplex⟩
  | rejected h hcomplex => exact ⟨h, hcomplex⟩
  | opening _ hclient => exact absurd hclient nofun
  | answering _ _ hlo => omega
  | second _ _ hlo => omega
  | messages _ _ hlo => omega

/-- C0C1 in two parts and then C2, to a server that writes at once. -/
theorem InSync.timely_parts {hm : HmacSha256} {s : Session} (h : InSync hm false [] s) {a b c : List UInt8}
    (ha : a.length < 1537) (hb : (a ++ b).length = 1537) (hyes : accepts hm false (a ++ b) = true) :
    AllTimely hm s [.deliver a {} true, .deliver b {} true, .deliver c {} true] := by
  obtain ⟨hwaits, -⟩ := h.server_waits (by decide)
  have hfirst : (SessionEvent.deliver a {} true).Timely hm s :=
    (timely_first hwaits).mpr ⟨nofun, fun _ => Nat.lt_trans ha (by decide)⟩
  have hsync : InSync hm false a (s.step hm (.deliver a {} true)) :=
    (h.step _ (Nat.lt_trans ha (by decide))).1 hfirst
  obtain ⟨hwaits', hcomplex⟩ := hsync.server_waits ha
  have htake : (a ++ b).take 1537 = a ++ b := List.take_of_length_le hb.le
  obtain ⟨hanswered, -⟩ := (step_first hm {} true hwaits' hcomplex hb.ge).2 (by rw [htake]; exact hyes)
  exact ⟨hfirst, (timely_first hwaits').mpr ⟨nofun, fun _ => by rw [hb]; decide⟩,
    (timely_second hanswered).mpr fun _ => rfl, trivial⟩

/-- Segmentation and scheduling of the handshake, for fewer than 2^31 bytes: the outcome depends on
the bytes alone exactly when every delivery is timely. -/
theorem handshake_segmentation (hm : HmacSha256) (client : Bool) (nonce : Nonce) (sync : Bool)
    (events : List SessionEvent) (hlen : (delivered events).length < 2 ^ 31) :
    ∃ s, Session.start hm client nonce sync = .ok s ∧
      (ScheduleFree hm client s events ↔ AllTimely hm s events) := by
  obtain ⟨s, hs, hsync⟩ := start_inSync hm client nonce sync
  refine ⟨s, hs, ?_⟩
  rw [← outcomes_iff events hsync hlen]
  refine ⟨fun hfree n => (hfree n).1, fun hall n => ⟨hall n, ?_⟩⟩
  have hprefix : (delivered (events.take n)).length ≤ (delivered events).length := by
    conv => rhs; rw [← List.take_append_drop n events, delivered, List.flatMap_append, List.length_append]
    exact Nat.le_add_right _ _
  rw [hall n]
  exact expected_inside (Nat.lt_of_le_of_lt hprefix hlen)

/-- C0C1 comes in two parts and C2 in one: the server is done. -/
theorem handshake_segmentation_done :
    let events : List SessionEvent := [.deliver [3, 0, 0, 0, 0, 0, 0, 0, 0] {} true,
      .deliver (List.replicate 1528 0) {} true, .deliver (List.replicate 1536 0) {} true]
    ∃ s, Session.start hmacSha256 false {} true = .ok s ∧ ScheduleFree hmacSha256 false s events ∧
      (s.run hmacSha256 events).complete.outcome.state = .message := by
  intro events
  have hfirst : ([3, 0, 0, 0, 0, 0, 0, 0, 0] ++ List.replicate 1528 (0 : UInt8)).length = 1537 := by
    rw [List.length_append, List.length_replicate]
    rfl
  have hbytes : delivered events =
      ([3, 0, 0, 0, 0, 0, 0, 0, 0] ++ List.replicate 1528 0) ++ List.replicate 1536 0 := by
    rw [List.append_assoc, ← List.append_nil (List.replicate 1536 (0 : UInt8))]
    rfl
  have hlen : (delivered events).length = 3073 := by
    rw [hbytes, List.length_append, hfirst, List.length_replicate]
  have hyes := accepts_simple hmacSha256 false (List.replicate 1528 0)
  obtain ⟨s, hs, hiff⟩ := handshake_segmentation hmacSha256 false {} true events (by rw [hlen]; decide)
  obtain ⟨s', hs', hsync⟩ := start_inSync hmacSha256 false {} true
  obtain rfl : s = s' := Except.ok.inj (hs.symm.trans hs')
  have hfree := hiff.mpr (hsync.timely_parts (by decide) hfirst hyes)
  have hend : (s.run hmacSha256 events).complete.outcome = expected hmacSha256 false (delivered events) := (hfree 3).1
  refine ⟨s, hs, hfree, ?_⟩
  rw [hend, expected_messages hlen.ge]
  rw [hbytes, List.take_left' hfirst]
  exact hyes

/-- C0C1 and C2 in one delivery: the server answers the first and leaves the second unread. -/
theorem backToBack_not_scheduleFree : ∃ s, Session.start hmacSha256 false {} true = .ok s ∧
    ¬ ScheduleFree hmacSha256 false s
      [.deliver ([3, 0, 0, 0, 0, 0, 0, 0, 0] ++ List.replicate 3064 0) {} true] := by
  obtain ⟨s, hs, hsync⟩ := start_inSync hmacSha256 false {} true
  refine ⟨s, hs, fun hfree => ?_⟩
  have hlen : ([3, 0, 0, 0, 0, 0, 0, 0, 0] ++ List.replicate 3064 (0 : UInt8)).length = 3073 := by
    rw [List.length_append, List.length_replicate]
    rfl
  have htake : ([3, 0, 0, 0, 0, 0, 0, 0, 0] ++ List.replicate 3064 (0 : UInt8)).take 1537 =
      [3, 0, 0, 0, 0, 0, 0, 0, 0] ++ List.replicate 1528 0 := by
    rw [List.take_append, List.take_replicate]
    rfl
  have hall := (outcomes_iff [.deliver _ {} true] hsync (by
    rw [List.nil_append, delivered, List.flatMap_singleton, SessionEvent.bytes, hlen]
    decide)).mp fun n => (hfree n).1
  have hbound := ((timely_first (hsync.server_waits (by decide)).1).mp hall.1).2
  rw [List.nil_append, htake, hlen] at hbound
  exact absurd (hbound (accepts_simple hmacSha256 false _)) (by decide)

end TmmsServer
