import TmmsServer.Rtmp.HandShakeDigest
import TmmsServer.Rtmp.HandShakeRun
import TmmsServer.Rtmp.RtmpPair

/-!
# Two handshakes with each other

A client of this program and a server of it, from `StartHandShake` on. What a socket took
arrives in order and in any pieces. A write takes at least nothing of its bytes and does not
fail; while it is under way, its last byte is not on the wire.
-/
namespace TmmsServer
open Lib.Feed BytesReader

/-- The bytes of the handshake that the socket took at most. -/
def Session.accepted (s : Session) : List UInt8 :=
  s.sent.flatten.take (s.sent.flatten.length - bif s.pending then 1 else 0)

/-- Both sessions, with the number of bytes that arrived at the server and at the client. -/
structure HandShakePair where
  client : Session
  server : Session
  toServer : Nat := 0
  toClient : Nat := 0

inductive ShakeStep where
  | clientWrites
  | serverWrites
  /-- At most `n` bytes arrive; `sync` tells whether the write that this starts is complete at once. -/
  | clientReads (n : Nat) (nonce : Nonce) (sync : Bool)
  | serverReads (n : Nat) (nonce : Nonce) (sync : Bool)

namespace HandShakePair

def start (hm : HmacSha256) (clientNonce serverNonce : Nonce) (sync : Bool) : Checked HandShakePair := do
  let client ← Session.start hm true clientNonce sync
  let server ← Session.start hm false serverNonce sync
  return { client, server }

/-- `OnRead` calls nobody where nothing came. -/
def step (hm : HmacSha256) (pair : HandShakePair) : ShakeStep → HandShakePair
  | .clientWrites => { pair with client := pair.client.complete }
  | .serverWrites => { pair with server := pair.server.complete }
  | .clientReads n nonce sync =>
      let piece := RtmpPair.arriving pair.server.accepted pair.toClient n
      if piece = [] then pair
      else { pair with
        client := pair.client.step hm (.deliver piece nonce sync)
        toClient := pair.toClient + piece.length }
  | .serverReads n nonce sync =>
      let piece := RtmpPair.arriving pair.client.accepted pair.toServer n
      if piece = [] then pair
      else { pair with
        server := pair.server.step hm (.deliver piece nonce sync)
        toServer := pair.toServer + piece.length }

def run (hm : HmacSha256) (pair : HandShakePair) (steps : List ShakeStep) : HandShakePair :=
  steps.foldl (step hm) pair

/-- No write is under way, and all that was written has arrived. -/
structure Quiet (pair : HandShakePair) : Prop where
  client : pair.client.pending = false
  server : pair.server.pending = false
  toServer : pair.toServer = pair.client.sent.flatten.length
  toClient : pair.toClient = pair.server.sent.flatten.length

end HandShakePair

/-- The session has gone over to messages, after a complex handshake and with nothing read behind it. -/
structure Session.Entered (s : Session) : Prop where
  state : s.ctx.state = .message
  complex : s.ctx.handshake.isComplexHandshake = true
  inn : s.ctx.inn = {}
  buf : s.buf = []
  out : s.out = []
  sent : s.sent.flatten.length = 3073
  fault : s.fault = none

/-- Both sessions have gone over to messages, and nothing is on the way. -/
structure HandShakePair.Met (pair : HandShakePair) : Prop where
  client : pair.client.Entered
  server : pair.server.Entered
  clientPending : pair.client.pending = false
  serverPending : pair.server.pending = false
  toServer : pair.toServer = 3073
  toClient : pair.toClient = 3073

/-! ## What arrives -/

theorem Session.accepted_all {s : Session} (hpending : s.pending = false) : s.accepted = s.sent.flatten := by
  rw [accepted, hpending]
  exact List.take_length

theorem arriving_all {s : Session} (hpending : s.pending = false) {delivered : Nat}
    (h : delivered = s.sent.flatten.length) (n : Nat) : RtmpPair.arriving s.accepted delivered n = [] := by
  rw [RtmpPair.arriving, s.accepted_all hpending, h, List.drop_length, List.take_nil]

/-- The next bytes of the last packet, of which `n` have arrived. -/
theorem arriving_packet {s : Session} {before packet : List UInt8} {n delivered : Nat}
    (hsent : s.sent.flatten = before ++ packet) (hdelivered : delivered = before.length + n) (hn : n < packet.length)
    (k : Nat) : ∃ j, (n + j < packet.length ∨ n + j = packet.length ∧ s.pending = false) ∧
      RtmpPair.arriving s.accepted delivered k = (packet.drop n).take j ∧ ((packet.drop n).take j).length = j := by
  obtain ⟨l, hl, hle, hall⟩ : ∃ l, n ≤ l ∧ (l < packet.length ∨ l = packet.length ∧ s.pending = false) ∧
      s.accepted = before ++ packet.take l := by
    unfold Session.accepted
    rw [hsent, List.length_append]
    cases s.pending with
    | false =>
        refine ⟨packet.length, hn.le, .inr ⟨rfl, rfl⟩, ?_⟩
        rw [cond_false, Nat.sub_zero, List.take_length_add_append]
    | true =>
        refine ⟨packet.length - 1, by omega, .inl (by omega), ?_⟩
        rw [cond_true, Nat.add_sub_assoc (by omega), List.take_length_add_append]
  refine ⟨min k (l - n), ?_, ?_, ?_⟩
  · rcases hle with hlt | ⟨rfl, hpending⟩
    · exact .inl (by omega)
    · rcases Nat.lt_or_ge (n + min k (packet.length - n)) packet.length with hlt | hge
      · exact .inl hlt
      · exact .inr ⟨by omega, hpending⟩
  · rw [RtmpPair.arriving, hall, hdelivered, List.drop_append, List.drop_of_length_le (Nat.le_add_right _ n),
      List.nil_append, Nat.add_sub_cancel_left, List.drop_take, List.take_take]
  · rw [List.length_take, List.length_drop]
    omega

/-! ## What a session does -/

namespace Session

section Calls
variable {hm : HmacSha256} {hs hs' : RtmpHandShake} {buf piece packet : List UInt8}
  {retrieved sent answers : List (List UInt8)} {pending : Bool} {nonce : Nonce}

theorem step_short (sync : Bool)
    (hcall : hs.handShake hm nonce (buf ++ piece) = .ok { hs, buf := buf ++ piece, ret := 1 }) :
    step hm { ctx := { handshake := hs }, buf, retrieved, sent, pending } (.deliver piece nonce sync) =
      { ctx := { handshake := hs }, buf := buf ++ piece, retrieved, sent, pending } := by
  have hparse := parse_goesOn sync hcall (show (1 : Int) ≠ 0 by decide) (show (1 : Int) ≠ 2 by decide)
  rw [step_deliver rfl hparse]
  simp [after, Except.toOption]

theorem step_takes (sync : Bool) {answer : List UInt8} (hcall : hs.handShake hm nonce (buf ++ piece) =
      .ok { hs := hs', buf := [], retrieved := [packet], sent := [answer], ret := 1 }) :
    step hm { ctx := { handshake := hs }, buf, retrieved, sent } (.deliver piece nonce sync) = {
      ctx := { handshake := bif sync then hs'.writeComplete else hs' }
      retrieved := retrieved ++ [packet]
      sent := sent ++ [answer]
      pending := !sync } := by
  have hparse := parse_goesOn sync hcall (show (1 : Int) ≠ 0 by decide) (show (1 : Int) ≠ 2 by decide)
  rw [step_deliver rfl hparse]
  cases sync <;> simp [after, Except.toOption]

/-- `HandShake` takes the second packet, and nothing is behind it. -/
theorem step_turns (sync : Bool) (hcall : hs.handShake hm nonce (buf ++ piece) =
      .ok { hs := hs', buf := [], retrieved := [packet], sent := answers, ret := 0 }) :
    step hm { ctx := { handshake := hs }, buf, retrieved, sent } (.deliver piece nonce sync) = {
      ctx := { state := .message, handshake := if answers ≠ [] ∧ sync then hs'.writeComplete else hs' }
      ret := 0
      retrieved := retrieved ++ [packet]
      sent := sent ++ answers
      pending := answers ≠ [] && !sync } := by
  have hctx : (if answers ≠ [] ∧ sync then RtmpContext.onWriteComplete ⟨.handShake, hs', {}⟩
      else ⟨.handShake, hs', {}⟩) = (⟨.handShake, if answers ≠ [] ∧ sync then hs'.writeComplete else hs', {}⟩ :
        RtmpContext) := by
    split <;> rfl
  have hparse : RtmpContext.parse hm ⟨.handShake, hs, {}⟩ nonce sync (buf ++ piece) = {
      ctx := ⟨.message, if answers ≠ [] ∧ sync then hs'.writeComplete else hs', {}⟩
      ret := 0, retrieved := [packet], sent := answers, fin := .ok [] } := by
    unfold RtmpContext.parse
    dsimp only
    rw [hcall]
    dsimp only
    rw [hctx]
    rfl
  rw [step_deliver rfl hparse]
  simp [after, Except.toOption]

theorem step_fails (sync : Bool) {e : Fault} (hcall : hs.handShake hm nonce (buf ++ piece) = .error e) :
    step hm { ctx := { handshake := hs }, buf, retrieved, sent, pending } (.deliver piece nonce sync) = {
      ctx := { handshake := hs }, retrieved, sent, pending, fault := some e } := by
  have hparse : RtmpContext.parse hm ⟨.handShake, hs, {}⟩ nonce sync (buf ++ piece) =
      { ctx := ⟨.handShake, hs, {}⟩, ret := 1, fin := .error e } := by
    unfold RtmpContext.parse
    dsimp only
    rw [hcall]
  rw [step_deliver rfl hparse]
  simp [after, Except.toOption]

end Calls

theorem complete_fault (s : Session) : s.complete.fault = s.fault ∧ s.complete.sent = s.sent := by
  unfold complete
  split <;> exact ⟨rfl, rfl⟩

end Session

/-! ## The two roles -/

/-- C0C1 or S0S1. -/
def firstPacket (hm : HmacSha256) (client : Bool) (nonce : Nonce) : List UInt8 :=
  3 :: (signedPacket client nonce hm).bytes

/-- The handshake of a role that made its first packet, and possibly its answer. -/
def shakingHands (hm : HmacSha256) (client : Bool) (nonce : Nonce) (c2s2 : List UInt8) (state : HandShakeState) :
    RtmpHandShake where
  isClient := client
  c1s1 := firstPacket hm client nonce
  c2s2
  state

section Roles
variable (hm : HmacSha256) (client : Bool) (nonce other drawn : Nonce)

theorem firstPacket_length : (firstPacket hm client nonce).length = 1537 := by
  rw [firstPacket, List.length_cons, SealedPacket.bytes_length]

theorem createC2S2_reply : ∃ reply, reply.length = 1536 ∧
    (shakingHands hm client nonce [] (firstState client)).createC2S2 hm drawn (signedPacket (!client) other hm).bytes
      (signedPacket (!client) other hm).offset = .ok (shakingHands hm client nonce reply (firstState client)) := by
  obtain ⟨body, hbody, hcreate⟩ := createC2S2_keyed hm (shakingHands hm client nonce [] (firstState client)) drawn
    (signedPacket (!client) other hm) rfl
  refine ⟨_, ?_, hcreate⟩
  rw [List.length_append, hbody, hm.length_eq]

/-- The first packet of the other role is answered. -/
theorem receiveC1S1_reply : ∃ reply, reply.length = 1536 ∧ ∀ next send,
    (shakingHands hm client nonce [] (firstState client)).receiveC1S1 hm drawn (firstPacket hm (!client) other)
      next send = .ok {
        hs := shakingHands hm client nonce reply next
        buf := []
        retrieved := [firstPacket hm (!client) other]
        sent := [send (shakingHands hm client nonce reply (firstState client))]
        ret := 1 } := by
  obtain ⟨reply, hreply, hcreate⟩ := createC2S2_reply hm client nonce other drawn
  refine ⟨reply, hreply, fun next send => ?_⟩
  have hlen := (firstPacket_length hm (!client) other).le
  have hcheck := checkC1S1_signed hm (!client) other
  rw [Bool.not_not, ← signedPacket_offset (!client) other hm] at hcheck
  unfold RtmpHandShake.receiveC1S1
  change (checkC1S1 hm client true (3 :: (signedPacket (!client) other hm).bytes) >>= _) = _
  rw [hcheck, ok_bind]
  change (RtmpHandShake.createC2S2 hm _ drawn _ _ >>= _) = _
  rw [show (firstPacket hm (!client) other).drop 1 = (signedPacket (!client) other hm).bytes from rfl]
  refine (congrArg (· >>= _) hcreate).trans ?_
  rw [ok_bind, kRtmpHandShakePacketSize, List.drop_of_length_le hlen, List.take_of_length_le hlen]
  rfl

theorem handShake_answers : ∃ reply, reply.length = 1536 ∧
    (shakingHands hm client nonce [] (firstState client)).handShake hm drawn (firstPacket hm (!client) other) = .ok {
      hs := shakingHands hm client nonce reply (answerState client)
      buf := []
      retrieved := [firstPacket hm (!client) other]
      sent := [bif client then reply else firstPacket hm client nonce]
      ret := 1 } := by
  obtain ⟨reply, hreply, hreceive⟩ := receiveC1S1_reply hm client nonce other drawn
  refine ⟨reply, hreply, ?_⟩
  have hlen := firstPacket_length hm (!client) other
  unfold RtmpHandShake.handShake
  cases client
  · exact (if_neg (by rw [hlen]; decide)).trans (hreceive _ _)
  · exact (if_neg (by rw [hlen]; decide)).trans (hreceive _ _)

/-- A digest is checked over all 1536 bytes. -/
theorem verifyDigest_truncated {d key : List UInt8} {off : Nat} (hpos : off ≠ 0) (hoff : off + 32 ≤ 1536)
    (hlen : d.length < 1536) (hleft : off ≤ d.length) : verifyDigest hm d off key = .error .outOfBounds := by
  have hright : readBytes d (off + 32) (1536 - off - 32) = .error .outOfBounds := if_neg (by omega)
  unfold verifyDigest calculateDigest
  rw [if_neg hpos, readBytes_of_le (by omega), ok_bind, hright]
  rfl

/-- Where a byte of S0S1 is missing, the check reads behind the bytes that are there. -/
theorem checkC1S1_truncated :
    checkC1S1 hm true true ((firstPacket hm false other).take 1536) = .error .outOfBounds := by
  have hall := SealedPacket.bytes_length (signedPacket false other hm)
  have hversion := copyUint32_signed hm false other
  have hoffset := getDigestOffset_signed hm false other
  have hle := placedOffset_le false other
  have hpos := (placedOffset_pos false other).ne'
  unfold firstPacket
  rw [List.take_succ_cons]
  generalize (signedPacket false other hm).bytes = bytes at hall hversion hoffset ⊢
  obtain ⟨d, last, rfl, hd, -⟩ := exists_cut 1535 1 hall
  rw [getDigestOffset_append (by rw [hd]; decide)] at hoffset
  rw [copyUint32, ← List.cons_append,
    readBytes_append last (by rw [List.length_cons, hd]; decide)] at hversion
  have hfails : verifyDigest hm d (placedOffset false other) (rtmpServerKey.take serverKeyOpenPartLen) =
      .error .outOfBounds := verifyDigest_truncated hm hpos (by omega) (by omega) (by omega)
  have hsame : copyUint32 (3 :: d) 5 = .ok (UInt32.ofNat (Lib.Words.leValue (roleVersion false))) := hversion
  rw [List.take_left' hd]
  unfold checkC1S1 checkDigests
  rw [readUint8T_cons, ok_bind, if_neg (by decide), hsame, ok_bind, if_neg (roleVersion_ne_zero false), if_pos rfl,
    List.drop_succ_cons, List.drop_zero, hoffset, ok_bind, cond_true, hfails]
  rfl

theorem handShake_truncated : (shakingHands hm true nonce [] .waitS0S1).handShake hm drawn
    ((firstPacket hm false other).take 1536) = .error .outOfBounds := by
  have hlen : firstTest true ≤ ((firstPacket hm false other).take 1536).length := by
    rw [List.length_take, firstPacket_length]
    decide
  have hst : (shakingHands hm true nonce [] .waitS0S1).state = firstState true := rfl
  obtain ⟨send, hcall⟩ := handShake_first hm drawn hst hlen
  rw [hcall]
  unfold RtmpHandShake.receiveC1S1
  change (checkC1S1 hm true true _ >>= _) = _
  rw [checkC1S1_truncated]
  rfl

theorem handShake_closes {reply second : List UInt8} (hsecond : second.length = 1536) :
    (shakingHands hm client nonce reply (secondState client)).handShake hm drawn second = .ok {
      hs := shakingHands hm client nonce reply (bif client then .done else .postS2)
      buf := []
      retrieved := [second]
      sent := bif client then [] else [reply]
      ret := 0 } := by
  have hcall := handShake_second hm drawn
    (rfl : (shakingHands hm client nonce reply (secondState client)).state = _) hsecond.ge
  rw [List.drop_of_length_le hsecond.le, List.take_of_length_le hsecond.le] at hcall
  exact hcall

end Roles

section Reads
variable {hm : HmacSha256} {client : Bool} {nonce other : Nonce} {packet reply : List UInt8} {n j : Nat}
  {retrieved sent : List (List UInt8)}

theorem reads_first (h : n + j < firstTest client) (hj : n + j ≤ packet.length) (drawn : Nonce) (sync : Bool) :
    Session.step hm {
        ctx := { handshake := shakingHands hm client nonce [] (firstState client) }
        buf := packet.take n, retrieved, sent } (.deliver ((packet.drop n).take j) drawn sync) = {
      ctx := { handshake := shakingHands hm client nonce [] (firstState client) }
      buf := packet.take (n + j), retrieved, sent } := by
  have hcall := handShake_short hm drawn
    (rfl : (shakingHands hm client nonce [] (firstState client)).state = firstState client)
    (show (packet.take (n + j)).length < firstTest client by rwa [List.length_take, Nat.min_eq_left hj])
  rw [List.take_add] at hcall ⊢
  exact Session.step_short sync hcall

/-- The first packet is complete. -/
theorem reads_answering (hm : HmacSha256) (client : Bool) (nonce other : Nonce) (sent : List (List UInt8))
    (h : n + j = 1537) (drawn : Nonce) (sync : Bool) : ∃ reply, reply.length = 1536 ∧
    Session.step hm {
        ctx := { handshake := shakingHands hm client nonce [] (firstState client) }
        buf := (firstPacket hm (!client) other).take n, sent }
        (.deliver (((firstPacket hm (!client) other).drop n).take j) drawn sync) = {
      ctx := { handshake :=
        shakingHands hm client nonce reply (bif !sync then answerState client else secondState client) }
      retrieved := [firstPacket hm (!client) other]
      sent := sent ++ [bif client then reply else firstPacket hm client nonce]
      pending := !sync } := by
  obtain ⟨reply, hreply, hcall⟩ := handShake_answers hm client nonce other drawn
  have hall : (firstPacket hm (!client) other).take (n + j) = firstPacket hm (!client) other :=
    List.take_of_length_le (by rw [firstPacket_length, h])
  refine ⟨reply, hreply, ?_⟩
  rw [← hall, List.take_add] at hcall
  rw [Session.step_takes sync hcall, ← List.take_add, hall]
  cases client <;> cases sync <;> rfl

theorem reads_second (h : n + j < 1536) (hj : n + j ≤ packet.length) (drawn : Nonce) (sync : Bool) :
    Session.step hm {
        ctx := { handshake := shakingHands hm client nonce reply (secondState client) }
        buf := packet.take n, retrieved, sent } (.deliver ((packet.drop n).take j) drawn sync) = {
      ctx := { handshake := shakingHands hm client nonce reply (secondState client) }
      buf := packet.take (n + j), retrieved, sent } := by
  have hcall := handShake_half hm drawn
    (rfl : (shakingHands hm client nonce reply (secondState client)).state = secondState client)
    (show (packet.take (n + j)).length < 1536 by rwa [List.length_take, Nat.min_eq_left hj])
  rw [List.take_add] at hcall ⊢
  exact Session.step_short sync hcall

/-- The second packet is complete. -/
theorem reads_closing (hpacket : packet.length = 1536) (h : n + j = 1536) (drawn : Nonce) (sync : Bool) :
    Session.step hm {
        ctx := { handshake := shakingHands hm client nonce reply (secondState client) }
        buf := packet.take n, retrieved, sent } (.deliver ((packet.drop n).take j) drawn sync) = {
      ctx := {
        state := .message
        handshake := shakingHands hm client nonce reply (bif client || sync then .done else .postS2) }
      ret := 0
      retrieved := retrieved ++ [packet]
      sent := sent ++ bif client then [] else [reply]
      pending := !client && !sync } := by
  have hcall : (shakingHands hm client nonce reply (secondState client)).handShake hm drawn packet = _ :=
    handShake_closes hm client nonce drawn hpacket
  have hall : packet.take (n + j) = packet := List.take_of_length_le (by rw [hpacket, h])
  rw [← hall, List.take_add] at hcall
  rw [Session.step_turns sync hcall, ← List.take_add, hall]
  cases client <;> cases sync <;> rfl

end Reads
/-! ## The phases of a pair -/

namespace HandShakePair

section Phases
variable (hm : HmacSha256) (clientNonce serverNonce : Nonce)

/-- `n` bytes of C0C1 have arrived. -/
structure Opening (pending : Bool) (n : Nat) (pair : HandShakePair) : Prop where
  arrived : n < 1537
  client : pair.client = {
    ctx := { handshake := shakingHands hm true clientNonce [] (bif pending then .postC0C1 else .waitS0S1) }
    sent := [firstPacket hm true clientNonce]
    pending }
  server : pair.server = {
    ctx := { handshake := shakingHands hm false serverNonce [] .waitC0C1 }
    buf := (firstPacket hm true clientNonce).take n }
  toServer : pair.toServer = n
  toClient : pair.toClient = 0

/-- `n` bytes of S0S1 have arrived. -/
structure Answered (pending : Bool) (s2 : List UInt8) (n : Nat) (pair : HandShakePair) : Prop where
  arrived : n < 1536
  s2_length : s2.length = 1536
  client : pair.client = {
    ctx := { handshake := shakingHands hm true clientNonce [] .waitS0S1 }
    buf := (firstPacket hm false serverNonce).take n
    sent := [firstPacket hm true clientNonce] }
  server : pair.server = {
    ctx := { handshake := shakingHands hm false serverNonce s2 (bif pending then .postS0S1 else .waitC2) }
    retrieved := [firstPacket hm true clientNonce]
    sent := [firstPacket hm false serverNonce]
    pending }
  toServer : pair.toServer = 1537
  toClient : pair.toClient = n

/-- `n` bytes of C2 have arrived. -/
structure Replied (pending : Bool) (s2 c2 : List UInt8) (n : Nat) (pair : HandShakePair) : Prop where
  arrived : n < 1536
  s2_length : s2.length = 1536
  c2_length : c2.length = 1536
  client : pair.client = {
    ctx := { handshake := shakingHands hm true clientNonce c2 (bif pending then .postC2 else .waitS2) }
    retrieved := [firstPacket hm false serverNonce]
    sent := [firstPacket hm true clientNonce, c2]
    pending }
  server : pair.server = {
    ctx := { handshake := shakingHands hm false serverNonce s2 .waitC2 }
    buf := c2.take n
    retrieved := [firstPacket hm true clientNonce]
    sent := [firstPacket hm false serverNonce] }
  toServer : pair.toServer = 1537 + n
  toClient : pair.toClient = 1537

/-- `n` bytes of S2 have arrived. -/
structure Closing (s2 c2 : List UInt8) (n : Nat) (pair : HandShakePair) : Prop where
  arrived : n < 1536
  s2_length : s2.length = 1536
  c2_length : c2.length = 1536
  client : pair.client = {
    ctx := { handshake := shakingHands hm true clientNonce c2 .waitS2 }
    buf := s2.take n
    retrieved := [firstPacket hm false serverNonce]
    sent := [firstPacket hm true clientNonce, c2] }
  server : pair.server.Entered
  sent : pair.server.sent = [firstPacket hm false serverNonce, s2]
  toServer : pair.toServer = 3073
  toClient : pair.toClient = 1537 + n

/-- How far a pair has come, where the client has not stopped a byte before the end of S0S1. -/
inductive Going (pair : HandShakePair) : Prop where
  | opening {pending : Bool} {n : Nat} (h : Opening hm clientNonce serverNonce pending n pair)
  | answered {pending : Bool} {s2 : List UInt8} {n : Nat} (h : Answered hm clientNonce serverNonce pending s2 n pair)
  | replied {pending : Bool} {s2 c2 : List UInt8} {n : Nat}
      (h : Replied hm clientNonce serverNonce pending s2 c2 n pair)
  | closing {s2 c2 : List UInt8} {n : Nat} (h : Closing hm clientNonce serverNonce s2 c2 n pair)
  | entered (h : pair.Met)

end Phases

/-- The client stopped there, and has read behind its bytes. -/
structure Failed (pair : HandShakePair) : Prop where
  client : pair.client.fault ≠ none
  server : pair.server.fault = none
  pending : pair.client.pending = false
  toServer : pair.toServer = pair.client.sent.flatten.length

section Steps
variable {hm : HmacSha256} {clientNonce serverNonce : Nonce} {pair : HandShakePair} {n : Nat} {nonce : Nonce}
  {sync : Bool} {piece : List UInt8}

theorem clientReads_packet {before packet : List UInt8} (hsent : pair.server.sent.flatten = before ++ packet)
    (hdelivered : pair.toClient = before.length + n) (hn : n < packet.length) (k : Nat) (drawn : Nonce)
    (sync : Bool) :
    pair.step hm (.clientReads k drawn sync) = pair ∨
      ∃ j, (n + j < packet.length ∨ n + j = packet.length ∧ pair.server.pending = false) ∧
        pair.step hm (.clientReads k drawn sync) = { pair with
          client := pair.client.step hm (.deliver ((packet.drop n).take j) drawn sync)
          toClient := pair.toClient + j } := by
  obtain ⟨j, hj, hpiece, hlen⟩ := arriving_packet hsent hdelivered hn k
  by_cases hnone : (packet.drop n).take j = []
  · exact .inl (if_pos (hpiece.trans hnone))
  · refine .inr ⟨j, hj, (if_neg (hpiece.trans_ne hnone)).trans ?_⟩
    rw [hpiece, hlen]

theorem serverReads_packet {before packet : List UInt8} (hsent : pair.client.sent.flatten = before ++ packet)
    (hdelivered : pair.toServer = before.length + n) (hn : n < packet.length) (k : Nat) (drawn : Nonce)
    (sync : Bool) :
    pair.step hm (.serverReads k drawn sync) = pair ∨
      ∃ j, (n + j < packet.length ∨ n + j = packet.length ∧ pair.client.pending = false) ∧
        pair.step hm (.serverReads k drawn sync) = { pair with
          server := pair.server.step hm (.deliver ((packet.drop n).take j) drawn sync)
          toServer := pair.toServer + j } := by
  obtain ⟨j, hj, hpiece, hlen⟩ := arriving_packet hsent hdelivered hn k
  by_cases hnone : (packet.drop n).take j = []
  · exact .inl (if_pos (hpiece.trans hnone))
  · refine .inr ⟨j, hj, (if_neg (hpiece.trans_ne hnone)).trans ?_⟩
    rw [hpiece, hlen]

theorem clientReads_all (hpending : pair.server.pending = false)
    (h : pair.toClient = pair.server.sent.flatten.length) (k : Nat) (drawn : Nonce) (sync : Bool) :
    pair.step hm (.clientReads k drawn sync) = pair := if_pos (arriving_all hpending h k)

theorem serverReads_all (hpending : pair.client.pending = false)
    (h : pair.toServer = pair.client.sent.flatten.length) (k : Nat) (drawn : Nonce) (sync : Bool) :
    pair.step hm (.serverReads k drawn sync) = pair := if_pos (arriving_all hpending h k)

theorem Opening.clientWrites {pending : Bool} (h : Opening hm clientNonce serverNonce pending n pair) :
    Opening hm clientNonce serverNonce false n (pair.step hm .clientWrites) where
  arrived := h.arrived
  client := by
    change pair.client.complete = _
    rw [h.client]
    cases pending <;> rfl
  server := h.server
  toServer := h.toServer
  toClient := h.toClient

theorem Opening.serverReads {pending : Bool} (h : Opening hm clientNonce serverNonce pending n pair) (k : Nat)
    (drawn : Nonce) (sync : Bool) : Going hm clientNonce serverNonce (pair.step hm (.serverReads k drawn sync)) := by
  have hlen := firstPacket_length hm true clientNonce
  have hsent : pair.client.sent.flatten = [] ++ firstPacket hm true clientNonce := by
    rw [h.client]
    exact List.append_nil _
  rcases serverReads_packet hsent (h.toServer.trans (Nat.zero_add n).symm) (hlen.symm ▸ h.arrived) k drawn sync with
    hsame | ⟨j, hshort | ⟨hfull, hdone⟩, hstep⟩
  · rw [hsame]
    exact .opening h
  · rw [hstep]
    refine .opening ⟨hlen ▸ hshort, h.client, ?_, by rw [h.toServer], h.toClient⟩
    rw [h.server]
    exact reads_first (Nat.lt_of_lt_of_eq hshort hlen : n + j < firstTest false) hshort.le drawn sync
  · rw [hstep]
    obtain ⟨s2, hs2, hanswer⟩ := reads_answering hm false serverNonce clientNonce [] (hfull.trans hlen) drawn sync
    rw [h.client] at hdone
    obtain rfl : pending = false := hdone
    refine .answered (?_ : Answered hm clientNonce serverNonce (!sync) s2 0 _)
    refine ⟨by decide, hs2, h.client, ?_, ?_, h.toClient⟩
    · rw [h.server]
      exact hanswer
    · rw [h.toServer, hfull, hlen]

theorem clientWrites_idle (h : pair.client.pending = false) : pair.step hm .clientWrites = pair :=
  congrArg (fun client => { pair with client }) (complete_idle h)

theorem serverWrites_idle (h : pair.server.pending = false) : pair.step hm .serverWrites = pair :=
  congrArg (fun server => { pair with server }) (complete_idle h)

theorem Opening.step {pending : Bool} (h : Opening hm clientNonce serverNonce pending n pair) (a : ShakeStep) :
    Going hm clientNonce serverNonce (pair.step hm a) := by
  have hserver : pair.server.pending = false := by rw [h.server]
  cases a with
  | clientWrites => exact .opening h.clientWrites
  | serverWrites =>
      rw [serverWrites_idle hserver]
      exact .opening h
  | clientReads k drawn sync =>
      rw [clientReads_all hserver (by rw [h.server, h.toClient]; rfl)]
      exact .opening h
  | serverReads k drawn sync => exact h.serverReads k drawn sync

/-! ### While S0S1 arrives -/

theorem Answered.serverWrites {pending : Bool} {s2 : List UInt8}
    (h : Answered hm clientNonce serverNonce pending s2 n pair) :
    Answered hm clientNonce serverNonce false s2 n (pair.step hm .serverWrites) where
  arrived := h.arrived
  s2_length := h.s2_length
  client := h.client
  server := by
    change pair.server.complete = _
    rw [h.server]
    cases pending <;> rfl
  toServer := h.toServer
  toClient := h.toClient

theorem Answered.clientReads {pending : Bool} {s2 : List UInt8}
    (h : Answered hm clientNonce serverNonce pending s2 n pair) (k : Nat) (drawn : Nonce) (sync : Bool) :
    Going hm clientNonce serverNonce (pair.step hm (.clientReads k drawn sync)) ∨
      (pair.step hm (.clientReads k drawn sync)).toClient = 1536 ∧
        Failed (pair.step hm (.clientReads k drawn sync)) := by
  have hlen := firstPacket_length hm false serverNonce
  have harrived := h.arrived
  have hsent : pair.server.sent.flatten = [] ++ firstPacket hm false serverNonce := by
    rw [h.server]
    exact List.append_nil _
  rcases clientReads_packet hsent (h.toClient.trans (Nat.zero_add n).symm) (by omega) k drawn sync with
    hsame | ⟨j, hshort | ⟨hfull, hdone⟩, hstep⟩
  · rw [hsame]
    exact .inl (.answered h)
  · rw [hstep]
    rcases Nat.lt_or_eq_of_le (Nat.le_of_lt_succ (Nat.lt_of_lt_of_eq hshort hlen)) with hless | hbyte
    · refine .inl (.answered ⟨hless, h.s2_length, ?_, h.server, h.toServer, by rw [h.toClient]⟩)
      rw [h.client]
      exact reads_first (hless : n + j < firstTest true) hshort.le drawn sync
    · have hcall := handShake_truncated hm clientNonce serverNonce drawn
      rw [← hbyte, List.take_add] at hcall
      have hclient : pair.client.step hm
          (.deliver (((firstPacket hm false serverNonce).drop n).take j) drawn sync) = {
          ctx := { handshake := shakingHands hm true clientNonce [] .waitS0S1 }
          sent := [firstPacket hm true clientNonce]
          fault := some .outOfBounds } := by
        rw [h.client]
        exact Session.step_fails sync hcall
      rw [hclient]
      refine .inr ⟨by rw [h.toClient, hbyte], Option.some_ne_none _, ?_, rfl, ?_⟩
      · rw [h.server]
      · rw [h.toServer]
        simp [firstPacket_length]
  · rw [hstep]
    obtain ⟨c2, hc2, hanswer⟩ := reads_answering hm true clientNonce serverNonce [firstPacket hm true clientNonce]
      (hfull.trans hlen) drawn sync
    rw [h.server] at hdone
    obtain rfl : pending = false := hdone
    refine .inl (.replied (?_ : Replied hm clientNonce serverNonce (!sync) s2 c2 0 _))
    refine ⟨by decide, h.s2_length, hc2, ?_, h.server, h.toServer, ?_⟩
    · rw [h.client]
      exact hanswer
    · rw [h.toClient, hfull, hlen]

theorem Answered.step {pending : Bool} {s2 : List UInt8} (h : Answered hm clientNonce serverNonce pending s2 n pair)
    (a : ShakeStep) : Going hm clientNonce serverNonce (pair.step hm a) ∨
      (pair.step hm a).toClient = 1536 ∧ Failed (pair.step hm a) := by
  have hclient : pair.client.pending = false := by rw [h.client]
  cases a with
  | clientWrites =>
      rw [clientWrites_idle hclient]
      exact .inl (.answered h)
  | serverWrites => exact .inl (.answered h.serverWrites)
  | clientReads k drawn sync => exact h.clientReads k drawn sync
  | serverReads k drawn sync =>
      rw [serverReads_all hclient (by rw [h.client, h.toServer]; simp [firstPacket_length])]
      exact .inl (.answered h)

/-! ### While C2 arrives -/

theorem Replied.clientWrites {pending : Bool} {s2 c2 : List UInt8}
    (h : Replied hm clientNonce serverNonce pending s2 c2 n pair) :
    Replied hm clientNonce serverNonce false s2 c2 n (pair.step hm .clientWrites) where
  arrived := h.arrived
  s2_length := h.s2_length
  c2_length := h.c2_length
  client := by
    change pair.client.complete = _
    rw [h.client]
    cases pending <;> rfl
  server := h.server
  toServer := h.toServer
  toClient := h.toClient

theorem Replied.serverReads {pending : Bool} {s2 c2 : List UInt8}
    (h : Replied hm clientNonce serverNonce pending s2 c2 n pair) (k : Nat) (drawn : Nonce) (sync : Bool) :
    Going hm clientNonce serverNonce (pair.step hm (.serverReads k drawn sync)) := by
  have hsent : pair.client.sent.flatten = firstPacket hm true clientNonce ++ c2 := by
    rw [h.client]
    simp
  have htoServer : pair.toServer = (firstPacket hm true clientNonce).length + n := by
    rw [h.toServer, firstPacket_length]
  rcases serverReads_packet hsent htoServer (h.c2_length.symm ▸ h.arrived) k drawn sync with
    hsame | ⟨j, hshort | ⟨hfull, hdone⟩, hstep⟩
  · rw [hsame]
    exact .replied h
  · rw [hstep]
    refine .replied ⟨h.c2_length ▸ hshort, h.s2_length, h.c2_length, h.client, ?_, ?_, h.toClient⟩
    · rw [h.server]
      exact reads_second (h.c2_length ▸ hshort) hshort.le drawn sync
    · rw [h.toServer, Nat.add_assoc]
  · rw [hstep]
    rw [h.client] at hdone
    obtain rfl : pending = false := hdone
    have hserver : pair.server.step hm (.deliver ((c2.drop n).take j) drawn sync) = {
        ctx := {
          state := .message
          handshake := shakingHands hm false serverNonce s2 (bif false || sync then .done else .postS2) }
        ret := 0
        retrieved := [firstPacket hm true clientNonce] ++ [c2]
        sent := [firstPacket hm false serverNonce] ++ [s2]
        pending := !sync } := by
      rw [h.server]
      exact reads_closing h.c2_length (hfull.trans h.c2_length) drawn sync
    rw [hserver]
    refine .closing (?_ : Closing hm clientNonce serverNonce s2 c2 0 _)
    refine ⟨by decide, h.s2_length, h.c2_length, h.client, ⟨rfl, rfl, rfl, rfl, rfl, ?_, rfl⟩, rfl, ?_, h.toClient⟩
    · simp [firstPacket_length, h.s2_length]
    · rw [h.toServer, Nat.add_assoc, hfull, h.c2_length]

theorem Replied.step {pending : Bool} {s2 c2 : List UInt8}
    (h : Replied hm clientNonce serverNonce pending s2 c2 n pair) (a : ShakeStep) :
    Going hm clientNonce serverNonce (pair.step hm a) := by
  have hserver : pair.server.pending = false := by rw [h.server]
  cases a with
  | clientWrites => exact .replied h.clientWrites
  | serverWrites =>
      rw [serverWrites_idle hserver]
      exact .replied h
  | clientReads k drawn sync =>
      rw [clientReads_all hserver (by rw [h.server, h.toClient]; simp [firstPacket_length])]
      exact .replied h
  | serverReads k drawn sync => exact h.serverReads k drawn sync

/-! ### While S2 arrives -/

theorem complete_entered {s : Session} (h : s.Entered) : s.complete.Entered ∧ s.complete.sent = s.sent := by
  have hctx : s.ctx.onWriteComplete = s.ctx := by
    unfold RtmpContext.onWriteComplete
    rw [h.state]
  unfold Session.complete
  split
  · refine ⟨⟨?_, ?_, ?_, h.buf, h.out, h.sent, h.fault⟩, rfl⟩
    · rw [hctx]
      exact h.state
    · rw [hctx]
      exact h.complex
    · rw [hctx]
      exact h.inn
  · exact ⟨h, rfl⟩

theorem Closing.clientReads {s2 c2 : List UInt8} (h : Closing hm clientNonce serverNonce s2 c2 n pair) (k : Nat)
    (drawn : Nonce) (sync : Bool) : Going hm clientNonce serverNonce (pair.step hm (.clientReads k drawn sync)) := by
  have hsent : pair.server.sent.flatten = firstPacket hm false serverNonce ++ s2 := by
    rw [h.sent]
    simp
  have htoClient : pair.toClient = (firstPacket hm false serverNonce).length + n := by
    rw [h.toClient, firstPacket_length]
  rcases clientReads_packet hsent htoClient (h.s2_length.symm ▸ h.arrived) k drawn sync with
    hsame | ⟨j, hshort | ⟨hfull, hdone⟩, hstep⟩
  · rw [hsame]
    exact .closing h
  · rw [hstep]
    refine .closing ⟨h.s2_length ▸ hshort, h.s2_length, h.c2_length, ?_, h.server, h.sent, h.toServer, ?_⟩
    · rw [h.client]
      exact reads_second (h.s2_length ▸ hshort) hshort.le drawn sync
    · rw [h.toClient, Nat.add_assoc]
  · rw [hstep]
    have hclient : pair.client.step hm (.deliver ((s2.drop n).take j) drawn sync) = {
        ctx := { state := .message, handshake := shakingHands hm true clientNonce c2 .done }
        ret := 0
        retrieved := [firstPacket hm false serverNonce] ++ [s2]
        sent := [firstPacket hm true clientNonce, c2] ++ [] } := by
      rw [h.client]
      exact reads_closing h.s2_length (hfull.trans h.s2_length) drawn sync
    rw [hclient]
    refine .entered ⟨⟨rfl, rfl, rfl, rfl, rfl, ?_, rfl⟩, h.server, rfl, hdone, h.toServer, ?_⟩
    · simp [firstPacket_length, h.c2_length]
    · rw [h.toClient, Nat.add_assoc, hfull, h.s2_length]

theorem Closing.step {s2 c2 : List UInt8} (h : Closing hm clientNonce serverNonce s2 c2 n pair) (a : ShakeStep) :
    Going hm clientNonce serverNonce (pair.step hm a) := by
  have hclient : pair.client.pending = false := by rw [h.client]
  cases a with
  | clientWrites =>
      rw [clientWrites_idle hclient]
      exact .closing h
  | serverWrites =>
      obtain ⟨hserver, hsent⟩ := complete_entered h.server
      exact .closing ⟨h.arrived, h.s2_length, h.c2_length, h.client, hserver, hsent.trans h.sent, h.toServer,
        h.toClient⟩
  | clientReads k drawn sync => exact h.clientReads k drawn sync
  | serverReads k drawn sync =>
      rw [serverReads_all hclient (by rw [h.client, h.toServer]; simp [firstPacket_length, h.c2_length])]
      exact .closing h

theorem Met.step (h : pair.Met) (a : ShakeStep) : pair.step hm a = pair := by
  cases a with
  | clientWrites => exact clientWrites_idle h.clientPending
  | serverWrites => exact serverWrites_idle h.serverPending
  | clientReads k drawn sync =>
      exact clientReads_all h.serverPending (h.toClient.trans h.server.sent.symm) k drawn sync
  | serverReads k drawn sync =>
      exact serverReads_all h.clientPending (h.toServer.trans h.client.sent.symm) k drawn sync

/-! ## Runs -/

theorem Going.step (h : Going hm clientNonce serverNonce pair) (a : ShakeStep) :
    Going hm clientNonce serverNonce (pair.step hm a) ∨
      (pair.step hm a).toClient = 1536 ∧ Failed (pair.step hm a) := by
  cases h with
  | opening h => exact .inl (h.step a)
  | answered h => exact h.step a
  | replied h => exact .inl (h.step a)
  | closing h => exact .inl (h.step a)
  | entered h => exact .inl (.entered ((h.step a).symm ▸ h))

theorem Going.sound (h : Going hm clientNonce serverNonce pair) :
    pair.client.fault = none ∧ pair.server.fault = none ∧ pair.toClient ≠ 1536 := by
  cases h with
  | opening h => exact ⟨by rw [h.client], by rw [h.server], by rw [h.toClient]; decide⟩
  | answered h => exact ⟨by rw [h.client], by rw [h.server], by rw [h.toClient]; exact h.arrived.ne⟩
  | replied h => exact ⟨by rw [h.client], by rw [h.server], by rw [h.toClient]; decide⟩
  | closing h => exact ⟨by rw [h.client], h.server.fault, by rw [h.toClient]; omega⟩
  | entered h => exact ⟨h.client.fault, h.server.fault, by rw [h.toClient]; decide⟩

/-- Nothing is left to come only at the end. -/
theorem Going.met (h : Going hm clientNonce serverNonce pair) (hquiet : pair.Quiet) : pair.Met := by
  have hfirst := firstPacket_length hm
  cases h with
  | @opening _ n h =>
      have hall := hquiet.toServer
      have hlt := h.arrived
      rw [h.client, h.toServer] at hall
      simp [hfirst] at hall
      omega
  | @answered _ _ n h =>
      have hall := hquiet.toClient
      have hlt := h.arrived
      rw [h.server, h.toClient] at hall
      simp [hfirst] at hall
      omega
  | @replied _ _ _ n h =>
      have hall := hquiet.toServer
      have hlt := h.arrived
      rw [h.client, h.toServer] at hall
      simp [hfirst, h.c2_length] at hall
      omega
  | @closing _ _ n h =>
      have hall := hquiet.toClient
      have hlt := h.arrived
      rw [h.sent, h.toClient] at hall
      simp [hfirst, h.s2_length] at hall
      omega
  | entered h => exact h

theorem Failed.step (h : pair.Failed) (a : ShakeStep) : (pair.step hm a).Failed := by
  cases a with
  | clientWrites => exact (clientWrites_idle h.pending).symm ▸ h
  | serverWrites =>
      obtain ⟨hfault, -⟩ := pair.server.complete_fault
      exact ⟨h.client, hfault.trans h.server, h.pending, h.toServer⟩
  | clientReads k drawn sync =>
      have hsame : ∀ e, pair.client.step hm (.deliver e drawn sync) = pair.client := fun e =>
        if_pos (Option.isSome_iff_ne_none.mpr h.client)
      unfold HandShakePair.step
      dsimp only
      split
      · exact h
      · rw [hsame]
        exact ⟨h.client, h.server, h.pending, h.toServer⟩
  | serverReads k drawn sync => exact (serverReads_all h.pending h.toServer k drawn sync).symm ▸ h

theorem run_failed (h : pair.Failed) (steps : List ShakeStep) : (pair.run hm steps).Failed := by
  induction steps generalizing pair with
  | nil => exact h
  | cons a steps ih => exact ih (h.step a)

/-- Up to the end of a run the pair is going on, or the client stopped once a byte before the end of S0S1. -/
theorem run_going (h : Going hm clientNonce serverNonce pair) (steps : List ShakeStep) :
    (Going hm clientNonce serverNonce (pair.run hm steps) ∧ ∀ n, (pair.run hm (steps.take n)).toClient ≠ 1536) ∨
      ((pair.run hm steps).Failed ∧ ∃ n, (pair.run hm (steps.take n)).toClient = 1536) := by
  induction steps generalizing pair with
  | nil => exact .inl ⟨h, fun n => by rw [List.take_nil]; exact h.sound.2.2⟩
  | cons a steps ih =>
      rcases h.step a with hgoing | ⟨hbyte, hfailed⟩
      · rcases ih hgoing with ⟨hend, hnever⟩ | ⟨hend, n, hbyte⟩
        · refine .inl ⟨hend, fun n => ?_⟩
          cases n with
          | zero => exact h.sound.2.2
          | succ n => exact hnever n
        · exact .inr ⟨hend, n + 1, hbyte⟩
      · exact .inr ⟨run_failed hfailed steps, 1, hbyte⟩

theorem start_going (hm : HmacSha256) (clientNonce serverNonce : Nonce) (sync : Bool) :
    ∃ pair, start hm clientNonce serverNonce sync = .ok pair ∧ Going hm clientNonce serverNonce pair := by
  have hclient := createC1S1_signed hm { isClient := true } clientNonce rfl
  have hserver := createC1S1_signed hm { isClient := false } serverNonce rfl
  unfold start Session.start
  rw [hclient, hserver]
  refine ⟨_, rfl, .opening (?_ : Opening hm clientNonce serverNonce (!sync) 0 _)⟩
  refine ⟨by decide, ?_, rfl, rfl, rfl⟩
  cases sync <;> rfl

/-- In every order of writes and reads of any lengths the two handshakes lead both contexts to messages, with nothing
left between them, exactly if the client never stops a byte before the end of S0S1; then it reads behind its bytes.
The server never does. -/
theorem handShakes_meet (hm : HmacSha256) (clientNonce serverNonce : Nonce) (sync : Bool) :
    ∃ pair, start hm clientNonce serverNonce sync = .ok pair ∧ ∀ steps : List ShakeStep,
      (pair.run hm steps).server.fault = none ∧
      ((pair.run hm steps).client.fault = none ↔ ∀ n, (pair.run hm (steps.take n)).toClient ≠ 1536) ∧
      ((pair.run hm steps).client.fault = none → (pair.run hm steps).Quiet → (pair.run hm steps).Met) := by
  obtain ⟨pair, hstart, hgoing⟩ := start_going hm clientNonce serverNonce sync
  refine ⟨pair, hstart, fun steps => ?_⟩
  rcases run_going hgoing steps with ⟨hend, hnever⟩ | ⟨hfailed, n, hbyte⟩
  · obtain ⟨hclient, hserver, -⟩ := hend.sound
    exact ⟨hserver, ⟨fun _ => hnever, fun _ => hclient⟩, fun _ => hend.met⟩
  · refine ⟨hfailed.server, ⟨fun hnone => absurd hnone hfailed.client, fun hnever => absurd hbyte (hnever n)⟩, ?_⟩
    exact fun hnone => absurd hnone hfailed.client

end Steps

end HandShakePair
end TmmsServer
