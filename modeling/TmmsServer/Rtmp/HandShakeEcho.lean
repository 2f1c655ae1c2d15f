import TmmsServer.Rtmp.HandShakeRun

/-!
# The answer of the simple handshake

What C2 or S2 repeats of a first packet whose version is zero. The client sends
its answer in the call that reads S0S1; the server keeps it until the C2 is there.
-/
namespace TmmsServer
open BytesReader BytesWriter

/-- What happens to a `RtmpHandShake`. -/
inductive HandShakeCall where
  | handShake (nonce : Nonce) (buf : List UInt8)
  | writeComplete

namespace RtmpHandShake

/-- The packets that a run of calls sends. -/
def calls (hm : HmacSha256) : RtmpHandShake → List HandShakeCall → Checked (List (List UInt8))
  | _, [] => .ok []
  | hs, .writeComplete :: later => calls hm hs.writeComplete later
  | hs, .handShake nonce buf :: later => do
      let shaken ← hs.handShake hm nonce buf
      let sent ← calls hm shaken.hs later
      return shaken.sent ++ sent

/-- Of what is sent from the first packet on, the server's S0S1 is no answer to it. -/
def answers (client : Bool) (sent : List (List UInt8)) : List (List UInt8) := bif client then sent else sent.drop 1

/-- The random bytes of a call. -/
def drawn (nonce : Nonce) : List UInt8 := (List.range kRtmpHandShakePacketSize).map nonce.random

/-- C2 or S2 of the simple handshake: the time, the peer's version, and random bytes. -/
def simpleReply (nonce : Nonce) (buf : List UInt8) : List UInt8 :=
  writeUint32T nonce.now ++ (((buf.drop 5).take 4) ++ (drawn nonce).drop 8)

/-- The answer has the timestamp and the random bytes of the first packet, which follow its version byte. -/
def Echoes (buf reply : List UInt8) : Prop :=
  reply.take 4 = (buf.drop 1).take 4 ∧ reply.drop 8 = (buf.drop 9).take 1528

section Reply
variable {hm : HmacSha256} {hs : RtmpHandShake} {nonce : Nonce} {buf : List UInt8}

theorem createC2S2_simple (offset : Nat) (hsimple : hs.isComplexHandshake = false) (hlen : 9 ≤ buf.length) :
    hs.createC2S2 hm nonce (buf.drop 1) offset = .ok { hs with c2s2 := simpleReply nonce buf } := by
  have hdrawn : drawn nonce = (drawn nonce).take 8 ++ (drawn nonce).drop 8 := (List.take_append_drop 8 _).symm
  have hrandom : ((drawn nonce).take 8).length = 8 := by
    rw [List.length_take, drawn, List.length_map, List.length_range]
    rfl
  have hfront : ((buf.drop 1).take 8).length = 8 := by
    rw [List.length_take, List.length_drop]
    omega
  have hread : readBytes (buf.drop 1) 0 8 = .ok ((buf.drop 1).take 8) := by
    refine readBytes_of_le ?_
    rw [List.length_drop]
    omega
  have hcopied : writeBytes (drawn nonce) 0 ((buf.drop 1).take 8) =
      .ok ((buf.drop 1).take 8 ++ (drawn nonce).drop 8) := by
    conv_lhs => rw [hdrawn]
    exact writeBytes_front _ (hrandom.trans hfront.symm)
  have hcut : (buf.drop 1).take 8 = (buf.drop 1).take 4 ++ (buf.drop 5).take 4 := by
    rw [List.take_add (i := 4) (j := 4), List.drop_drop]
  have htime : ((buf.drop 1).take 4).length = (writeUint32T nonce.now).length := by
    rw [List.length_take, List.length_drop, writeUint32T, Lib.Words.beBytes_length]
    omega
  have hstamped : writeBytes ((buf.drop 1).take 8 ++ (drawn nonce).drop 8) 0 (writeUint32T nonce.now) =
      .ok (simpleReply nonce buf) := by
    rw [hcut, List.append_assoc]
    exact writeBytes_front _ htime
  unfold createC2S2
  rw [hread, ok_bind]
  change (writeBytes (drawn nonce) 0 _ >>= _) = _
  rw [hcopied, ok_bind, hstamped, ok_bind, hsimple]
  rfl

theorem echoes_simpleReply (hlen : 9 ≤ buf.length) : Echoes buf (simpleReply nonce buf) ↔
    writeUint32T nonce.now = (buf.drop 1).take 4 ∧ (drawn nonce).drop 8 = (buf.drop 9).take 1528 := by
  have htime : (writeUint32T nonce.now).length = 4 := Lib.Words.beBytes_length _ _
  have hversion : ((buf.drop 5).take 4).length = 4 := by
    rw [List.length_take, List.length_drop]
    omega
  have hfront : (simpleReply nonce buf).take 4 = writeUint32T nonce.now := List.take_left' htime
  have hback : (simpleReply nonce buf).drop 8 = (drawn nonce).drop 8 := by
    rw [simpleReply, ← List.append_assoc]
    exact List.drop_left' (by rw [List.length_append, htime, hversion])
  rw [Echoes, hfront, hback]

theorem receiveC1S1_simple (nonce : Nonce) (next : HandShakeState) (send : RtmpHandShake → List UInt8)
    (hlen : 9 ≤ buf.length) (hsimple : checkC1S1 hm hs.isClient hs.isComplexHandshake buf = .ok ⟨false, some 0⟩) :
    hs.receiveC1S1 hm nonce buf next send = .ok {
      hs := { hs with isComplexHandshake := false, c2s2 := simpleReply nonce buf, state := next }
      buf := buf.drop 1537
      retrieved := [buf.take 1537]
      sent := [send { hs with isComplexHandshake := false, c2s2 := simpleReply nonce buf }]
      ret := 1 } := by
  have hcreate : createC2S2 hm { hs with isComplexHandshake := false } nonce (buf.drop 1) 0 = _ :=
    createC2S2_simple 0 rfl hlen
  rw [receiveC1S1, hsimple, ok_bind]
  dsimp only at hcreate ⊢
  rw [hcreate]
  rfl

theorem handShake_simple (nonce : Nonce) (hst : hs.state = firstState hs.isClient) (hlen : 1537 ≤ buf.length)
    (hsimple : checkC1S1 hm hs.isClient hs.isComplexHandshake buf = .ok ⟨false, some 0⟩) :
    ∃ shaken, hs.handShake hm nonce buf = .ok shaken ∧ shaken.hs.state = answerState hs.isClient ∧
      shaken.hs.c2s2 = simpleReply nonce buf ∧
        shaken.sent = [bif hs.isClient then simpleReply nonce buf else hs.c1s1] := by
  have hreceive := fun next send => receiveC1S1_simple nonce next send (by omega) hsimple
  cases hclient : hs.isClient with
  | false =>
      rw [hclient] at hst
      have hcall : hs.handShake hm nonce buf = hs.receiveC1S1 hm nonce buf .postS0S1 c1s1 := by
        rw [handShake, hst]
        exact if_neg (Nat.not_lt.mpr hlen)
      exact ⟨_, hcall.trans (hreceive .postS0S1 c1s1), rfl, rfl, rfl⟩
  | true =>
      rw [hclient] at hst
      have hcall : hs.handShake hm nonce buf = hs.receiveC1S1 hm nonce buf .postC2 c2s2 := by
        rw [handShake, hst]
        exact if_neg (Nat.not_lt.mpr (Nat.le_of_succ_le hlen))
      exact ⟨_, hcall.trans (hreceive .postC2 c2s2), rfl, rfl, rfl⟩

end Reply

/-- Nothing is sent from these states on. -/
def Settled (hs : RtmpHandShake) : Prop :=
  hs.state = .postC2 ∨ hs.state = .waitS2 ∨ hs.state = .postS2 ∨ hs.state = .done

/-- The server has the S2 made and not sent. -/
def Owing (hs : RtmpHandShake) : Prop := hs.state = .postS0S1 ∨ hs.state = .waitC2

section Later
variable {hm : HmacSha256} {hs : RtmpHandShake}

theorem Settled.writeComplete (h : hs.Settled) : hs.writeComplete.Settled := by
  unfold RtmpHandShake.writeComplete
  rcases h with h | h | h | h
  all_goals simp [h, Settled]

theorem Settled.handShake (hm : HmacSha256) (h : hs.Settled) (nonce : Nonce) (buf : List UInt8) :
    ∃ shaken, hs.handShake hm nonce buf = .ok shaken ∧ shaken.hs.Settled ∧ shaken.sent = [] := by
  unfold RtmpHandShake.handShake
  rcases h with h | h | h | h
  · exact ⟨_, by rw [h], .inl h, rfl⟩
  · by_cases hshort : buf.length < kRtmpHandShakePacketSize
    · exact ⟨_, by rw [h]; exact if_pos hshort, .inr (.inl h), rfl⟩
    · exact ⟨_, by rw [h]; exact if_neg hshort, .inr (.inr (.inr rfl)), rfl⟩
  · exact ⟨_, by rw [h], .inr (.inr (.inl h)), rfl⟩
  · exact ⟨_, by rw [h], .inr (.inr (.inr h)), rfl⟩

theorem calls_settled (hm : HmacSha256) (h : hs.Settled) (later : List HandShakeCall) :
    calls hm hs later = .ok [] := by
  induction later generalizing hs with
  | nil => rfl
  | cons c later ih =>
      cases c with
      | writeComplete => exact ih h.writeComplete
      | handShake nonce buf =>
          obtain ⟨shaken, hcall, hsettled, hsent⟩ := h.handShake hm nonce buf
          rw [calls, hcall, ok_bind, ih hsettled, ok_bind, hsent]
          rfl

theorem Owing.writeComplete (h : hs.Owing) : hs.writeComplete.Owing ∧ hs.writeComplete.c2s2 = hs.c2s2 := by
  unfold RtmpHandShake.writeComplete
  rcases h with h | h
  all_goals simp [h, Owing]

theorem Owing.handShake (hm : HmacSha256) (h : hs.Owing) (nonce : Nonce) (buf : List UInt8) :
    hs.handShake hm nonce buf = .ok { hs, buf, ret := 1 } ∨
      ∃ shaken, hs.handShake hm nonce buf = .ok shaken ∧ shaken.hs.Settled ∧ shaken.sent = [hs.c2s2] := by
  unfold RtmpHandShake.handShake
  rcases h with h | h
  · exact .inl (by rw [h])
  · by_cases hshort : buf.length < kRtmpHandShakePacketSize
    · exact .inl (by rw [h]; exact if_pos hshort)
    · exact .inr ⟨_, by rw [h]; exact if_neg hshort, .inr (.inr (.inl rfl)), rfl⟩

/-- The S2 goes out once at most, and as it was made. -/
theorem calls_owing (hm : HmacSha256) (h : hs.Owing) (later : List HandShakeCall) :
    calls hm hs later = .ok [] ∨ calls hm hs later = .ok [hs.c2s2] := by
  induction later generalizing hs with
  | nil => exact .inl rfl
  | cons c later ih =>
      cases c with
      | writeComplete =>
          obtain ⟨howing, hkept⟩ := h.writeComplete
          rw [← hkept]
          exact ih howing
      | handShake nonce buf =>
          rcases h.handShake hm nonce buf with hwait | ⟨shaken, hcall, hsettled, hsent⟩
          · rcases ih h with hnone | hone
            · refine .inl ?_
              rw [calls, hwait, ok_bind, hnone]
              rfl
            · refine .inr ?_
              rw [calls, hwait, ok_bind, hone]
              rfl
          · refine .inr ?_
            rw [calls, hcall, ok_bind, calls_settled hm hsettled, ok_bind, hsent]
            rfl

theorem calls_takes (hst : hs.state = .postS0S1) :
    calls hm hs [.writeComplete, .handShake {} (List.replicate 1536 0)] = .ok [hs.c2s2] := by
  have hwait : hs.writeComplete = { hs with state := .waitC2 } := by
    unfold RtmpHandShake.writeComplete
    rw [hst]
  have hfull : ¬ (List.replicate 1536 (0 : UInt8)).length < kRtmpHandShakePacketSize := by
    rw [List.length_replicate]
    decide
  rw [calls, hwait, calls, RtmpHandShake.handShake]
  dsimp only
  rw [if_neg hfull]
  rfl

end Later

section Echo
variable {hm : HmacSha256} {hs : RtmpHandShake} {nonce : Nonce} {buf : List UInt8}

/-- Every answer to a first packet of the simple handshake is the one made from it, and some run sends it. -/
theorem answers_simple (nonce : Nonce) (hst : hs.state = firstState hs.isClient) (hlen : 1537 ≤ buf.length)
    (hsimple : checkC1S1 hm hs.isClient hs.isComplexHandshake buf = .ok ⟨false, some 0⟩) :
    (∀ later sent, calls hm hs (.handShake nonce buf :: later) = .ok sent →
        ∀ reply ∈ answers hs.isClient sent, reply = simpleReply nonce buf) ∧
      ∃ later sent, calls hm hs (.handShake nonce buf :: later) = .ok sent ∧
        simpleReply nonce buf ∈ answers hs.isClient sent := by
  obtain ⟨shaken, hcall, hstate, hc2s2, hsent⟩ := handShake_simple nonce hst hlen hsimple
  have hrun : ∀ {later more}, calls hm shaken.hs later = .ok more →
      calls hm hs (.handShake nonce buf :: later) = .ok (shaken.sent ++ more) := by
    intro later more hmore
    rw [calls, hcall, ok_bind, hmore]
    rfl
  cases hclient : hs.isClient with
  | true =>
      rw [hclient] at hstate hsent
      have hnone := fun later => calls_settled hm (.inl hstate : shaken.hs.Settled) later
      refine ⟨fun later sent h reply hreply => ?_, [], _, hrun (hnone []), ?_⟩
      · obtain rfl := Except.ok.inj (h.symm.trans (hrun (hnone later)))
        rw [hsent] at hreply
        exact List.mem_singleton.mp hreply
      · rw [hsent]
        exact List.mem_singleton_self _
  | false =>
      rw [hclient] at hstate hsent
      refine ⟨fun later sent h reply hreply => ?_, _, _, hrun (calls_takes hstate), ?_⟩
      · rcases calls_owing hm (.inl hstate : shaken.hs.Owing) later with hnone | hone
        · obtain rfl := Except.ok.inj (h.symm.trans (hrun hnone))
          rw [hsent] at hreply
          exact absurd hreply List.not_mem_nil
        · obtain rfl := Except.ok.inj (h.symm.trans (hrun hone))
          rw [hsent, hc2s2] at hreply
          exact List.mem_singleton.mp hreply
      · rw [hsent, hc2s2]
        exact List.mem_singleton_self _

/-- The answers to a first packet of the simple handshake echo it, in all that can follow, exactly if the time and
the bytes drawn are those of the packet. -/
theorem handShake_echoes (hst : hs.state = firstState hs.isClient) (hlen : 1537 ≤ buf.length)
    (hsimple : checkC1S1 hm hs.isClient hs.isComplexHandshake buf = .ok ⟨false, some 0⟩) :
    (∀ later sent, calls hm hs (.handShake nonce buf :: later) = .ok sent →
        ∀ reply ∈ answers hs.isClient sent, Echoes buf reply) ↔
      writeUint32T nonce.now = (buf.drop 1).take 4 ∧ (drawn nonce).drop 8 = (buf.drop 9).take 1528 := by
  obtain ⟨hall, later, sent, hrun, hmem⟩ := answers_simple nonce hst hlen hsimple
  rw [← echoes_simpleReply (Nat.le_trans (by decide : 9 ≤ 1537) hlen)]
  refine ⟨fun h => h later sent hrun _ hmem, fun h later sent hrun reply hreply => ?_⟩
  rw [hall later sent hrun reply hreply]
  exact h

/-- A C0C1 of timestamp one. -/
def simplePacket : List UInt8 := [3, 0, 0, 0, 1, 0, 0, 0, 0] ++ List.replicate 1528 7

def waitingServer : RtmpHandShake where
  isClient := false
  state := .waitC0C1

theorem simplePacket_length : simplePacket.length = 1537 := by
  rw [simplePacket, List.length_append, List.length_replicate]
  rfl

theorem simplePacket_accepted (hm : HmacSha256) :
    checkC1S1 hm waitingServer.isClient waitingServer.isComplexHandshake simplePacket = .ok ⟨false, some 0⟩ :=
  checkC1S1_simple hm false true 0 0 0 1 _

/-- At time one a server that draws the packet's bytes echoes it. -/
theorem handShake_echoes_drawn : checkC1S1 hmacSha256 false true simplePacket = .ok ⟨false, some 0⟩ ∧
    ∀ later sent, calls hmacSha256 waitingServer (.handShake ⟨fun _ => 7, 1⟩ simplePacket :: later) = .ok sent →
      ∀ reply ∈ answers false sent, Echoes simplePacket reply := by
  refine ⟨simplePacket_accepted hmacSha256, (handShake_echoes (rfl : waitingServer.state = _)
    simplePacket_length.ge (simplePacket_accepted hmacSha256)).mpr ⟨by decide, ?_⟩⟩
  have hdrawn : drawn ⟨fun _ => 7, 1⟩ = List.replicate 1536 7 := by simp [drawn, kRtmpHandShakePacketSize]
  have hrandom : simplePacket.drop 9 = List.replicate 1528 7 := List.drop_left' rfl
  rw [hdrawn, hrandom, List.drop_replicate, List.take_replicate, Nat.min_self]

/-- A server at time zero that draws zeros sends zeros. -/
theorem handShake_zeros : ¬ ∀ later sent,
    calls hmacSha256 waitingServer (.handShake {} simplePacket :: later) = .ok sent →
      ∀ reply ∈ answers false sent, Echoes simplePacket reply := by
  obtain ⟨-, later, sent, hrun, hmem⟩ := answers_simple {} (rfl : waitingServer.state = _)
    simplePacket_length.ge (simplePacket_accepted hmacSha256)
  intro h
  have hecho := (echoes_simpleReply (by rw [simplePacket_length]; decide)).mp (h later sent hrun _ hmem)
  exact absurd hecho.1 (by decide)

end Echo

end RtmpHandShake
end TmmsServer
