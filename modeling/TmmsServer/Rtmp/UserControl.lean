import TmmsServer.Rtmp.CommandReplies
import TmmsServer.Rtmp.MessageDispatch

/-!
# User control messages

`SendUserCtrlMessage` writes every field at the start of the body. What
`HandleUserMessage` reads is the last word that was written, moved up by two
bytes.
-/
namespace TmmsServer
open Lib.Words BytesReader

/-- The body `SendUserCtrlMessage` writes for any `short`. -/
def userCtrlFields (nType : UInt16) (value1 value2 : UInt32) : Checked (List UInt8) := do
  let body ← writeBytes (List.replicate 64 0) 0 (BytesWriter.writeUint16T nType)
  let body ← writeBytes body 0 (BytesWriter.writeUint32T value1)
  let body ←
    if nType = RtmpEventType.setBufferLength.code then writeBytes body 0 (BytesWriter.writeUint32T value2)
    else .ok body
  return body.take (if nType = RtmpEventType.setBufferLength.code then 10 else 6)

def userCtrlMessage (nType : UInt16) (value1 value2 : UInt32) : Checked Packet :=
  userCtrlFields nType value1 value2 >>= newMessage 64 (controlHeader kRtmpMsgTypeUserControl)

/-- The type and the value `HandleUserMessage` reads, where the message is long enough. -/
def userEvent (packet : Packet) : Checked (Option (UInt16 × UInt32)) :=
  if packet.packetSize < 6 then .ok none
  else do
    let type ← readUint16T packet.data 0
    let value ← readUint32T packet.data 2
    return some (type, value)

namespace CommandContext

theorem sendUserCtrlMessage_eq (ctx : CommandContext) (type : RtmpEventType) (value1 value2 : UInt32) :
    ctx.sendUserCtrlMessage type value1 value2 = ctx.sendMessage (userCtrlMessage type.code value1 value2) := by
  cases type <;> rfl

theorem handleUserMessage_eq (ctx : CommandContext) (packet : Packet) :
    ctx.handleUserMessage packet = userEvent packet >>= fun event =>
      match event with
      | none => .ok ctx
      | some (type, value) =>
          match RtmpEventType.ofCode type with
          | some .pingRequest => ctx.sendUserCtrlMessage .pingResponse value 0
          | _ => .ok ctx := by
  unfold handleUserMessage userEvent
  split
  · rfl
  · cases readUint16T packet.data 0 with
    | error e => rfl
    | ok type =>
        cases readUint32T packet.data 2 with
        | error e => rfl
        | ok value => rfl

end CommandContext

/-- The word that is left at the start of the body. -/
def lastWord (nType : UInt16) (value1 value2 : UInt32) : UInt32 :=
  if nType = RtmpEventType.setBufferLength.code then value2 else value1

def userCtrlLength (nType : UInt16) : Nat :=
  if nType = RtmpEventType.setBufferLength.code then 10 else 6

theorem userCtrlFields_eq (nType : UInt16) (value1 value2 : UInt32) :
    userCtrlFields nType value1 value2 =
      .ok (BytesWriter.writeUint32T (lastWord nType value1 value2) ++ List.replicate (userCtrlLength nType - 4) 0) := by
  have htype : writeBytes (List.replicate 64 0) 0 (BytesWriter.writeUint16T nType) =
      .ok (BytesWriter.writeUint16T nType ++ List.replicate 62 0) := by
    rw [(List.replicate_add 2 62 (0 : UInt8) : List.replicate 64 (0 : UInt8) = _)]
    exact writeBytes_front _ (beBytes_length 2 _).symm
  have hvalue1 : writeBytes (BytesWriter.writeUint16T nType ++ List.replicate 62 0) 0
      (BytesWriter.writeUint32T value1) = .ok (BytesWriter.writeUint32T value1 ++ List.replicate 60 0) := by
    rw [(List.replicate_add 2 60 (0 : UInt8) : List.replicate 62 (0 : UInt8) = _), ← List.append_assoc]
    refine writeBytes_front _ ?_
    rw [List.length_append, writeUint32T_length, BytesWriter.writeUint16T, beBytes_length]
    rfl
  have hvalue2 : writeBytes (BytesWriter.writeUint32T value1 ++ List.replicate 60 0) 0
      (BytesWriter.writeUint32T value2) = .ok (BytesWriter.writeUint32T value2 ++ List.replicate 60 0) :=
    writeBytes_front _ (by rw [writeUint32T_length, writeUint32T_length])
  have hcut : ∀ (value : UInt32) (n : Nat), n ≤ 60 →
      (BytesWriter.writeUint32T value ++ List.replicate 60 0).take (4 + n) =
        BytesWriter.writeUint32T value ++ List.replicate n 0 := by
    intro value n hn
    rw [← writeUint32T_length value, List.take_length_add_append, List.take_replicate, Nat.min_eq_left hn]
  unfold userCtrlFields lastWord userCtrlLength
  rw [htype, ok_bind, hvalue1, ok_bind]
  by_cases h : nType = RtmpEventType.setBufferLength.code
  · simp only [if_pos h]
    rw [hvalue2, ok_bind]
    exact congrArg Except.ok (hcut value2 6 (by decide))
  · simp only [if_neg h]
    rw [ok_bind]
    exact congrArg Except.ok (hcut value1 2 (by decide))

theorem writeUint32T_moved (word : UInt32) (rest : List UInt8) :
    BytesWriter.writeUint32T word ++ 0 :: 0 :: rest =
      BytesWriter.writeUint16T (UInt16.ofNat (word.toNat / 2 ^ 16)) ++
        (BytesWriter.writeUint32T (UInt32.ofNat (word.toNat * 2 ^ 16)) ++ rest) := by
  have hbyte : ∀ {m n : Nat}, m % 2 ^ 8 = n % 2 ^ 8 → UInt8.ofNat m = UInt8.ofNat n := by
    intro m n h
    rw [← UInt8.toNat_inj, UInt8.toNat_ofNat', UInt8.toNat_ofNat', h]
  have hword := word.toNat_lt
  unfold BytesWriter.writeUint32T BytesWriter.writeUint16T
  rw [UInt16.toNat_ofNat', UInt32.toNat_ofNat']
  simp only [beBytes, List.cons_append, List.nil_append, List.cons.injEq, and_true]
  refine ⟨hbyte ?_, hbyte ?_, hbyte ?_, hbyte ?_, hbyte (m := 0) ?_, hbyte (m := 0) ?_⟩
  · omega
  · omega
  · omega
  · omega
  · omega
  · omega

/-- The type is the high half of the word, and the value its low half moved up. -/
theorem userEvent_word (word : UInt32) {packet : Packet} {rest : List UInt8}
    (h : packet.data = BytesWriter.writeUint32T word ++ 0 :: 0 :: rest) :
    userEvent packet = .ok (some (UInt16.ofNat (word.toNat / 2 ^ 16), UInt32.ofNat (word.toNat * 2 ^ 16))) := by
  have hlong : ¬ packet.packetSize < 6 := by
    rw [Packet.packetSize, h, List.length_append, writeUint32T_length, List.length_cons, List.length_cons]
    omega
  rw [writeUint32T_moved] at h
  have htype := @readUint16T_write [] (BytesWriter.writeUint32T (UInt32.ofNat (word.toNat * 2 ^ 16)) ++ rest) 0
    (UInt16.ofNat (word.toNat / 2 ^ 16)) rfl
  have hvalue := @readUint32T_write (BytesWriter.writeUint16T (UInt16.ofNat (word.toNat / 2 ^ 16))) rest 2
    (UInt32.ofNat (word.toNat * 2 ^ 16)) (beBytes_length 2 _)
  unfold userEvent
  rw [if_neg hlong, h]
  rw [List.nil_append] at htype
  rw [htype, ok_bind, hvalue, ok_bind]
  rfl

/-- The packet of `SendUserCtrlMessage`. -/
def userCtrlPacket (nType : UInt16) (value1 value2 : UInt32) : Packet :=
  message 64 (controlHeader kRtmpMsgTypeUserControl)
    (BytesWriter.writeUint32T (lastWord nType value1 value2) ++ List.replicate (userCtrlLength nType - 4) 0)

theorem userCtrlPacket_size (nType : UInt16) (value1 value2 : UInt32) :
    (userCtrlPacket nType value1 value2).packetSize = userCtrlLength nType := by
  unfold userCtrlPacket message Packet.packetSize userCtrlLength
  dsimp only
  rw [List.length_append, writeUint32T_length, List.length_replicate]
  split
  · rfl
  · rfl

theorem userCtrlMessage_eq (nType : UInt16) (value1 value2 : UInt32) :
    userCtrlMessage nType value1 value2 = .ok (userCtrlPacket nType value1 value2) := by
  rw [userCtrlMessage, userCtrlFields_eq, ok_bind]
  refine newMessage_fits ?_
  have hsize := userCtrlPacket_size nType value1 value2
  change (userCtrlPacket nType value1 value2).packetSize ≤ 64
  rw [hsize, userCtrlLength]
  split
  · decide
  · decide

theorem userEvent_userCtrl (nType : UInt16) (value1 value2 : UInt32) :
    userEvent (userCtrlPacket nType value1 value2) =
      .ok (some (UInt16.ofNat ((lastWord nType value1 value2).toNat / 2 ^ 16),
        UInt32.ofNat ((lastWord nType value1 value2).toNat * 2 ^ 16))) := by
  obtain ⟨n, hn⟩ : ∃ n, userCtrlLength nType - 4 = n + 2 := by
    unfold userCtrlLength
    split
    · exact ⟨4, rfl⟩
    · exact ⟨0, rfl⟩
  have hdata : (userCtrlPacket nType value1 value2).data =
      BytesWriter.writeUint32T (lastWord nType value1 value2) ++ 0 :: 0 :: List.replicate n 0 := by
    change _ ++ List.replicate (userCtrlLength nType - 4) 0 = _
    rw [hn]
    rfl
  exact userEvent_word _ hdata

/-- Only the word zero is its own low half moved up. -/
theorem moved_eq_iff (word : UInt32) : UInt32.ofNat (word.toNat * 2 ^ 16) = word ↔ word = 0 := by
  rw [← UInt32.toNat_inj, ← UInt32.toNat_inj, UInt32.toNat_ofNat', UInt32.toNat_zero]
  constructor
  · intro h
    obtain ⟨high, hhigh⟩ : 2 ^ 16 ∣ word.toNat := by
      rw [← h, Nat.dvd_mod_iff (Nat.pow_dvd_pow 2 (by decide))]
      exact Nat.dvd_mul_left _ _
    rw [← h, hhigh, Nat.mul_right_comm, ← Nat.pow_add]
    exact Nat.mul_mod_right _ high
  · intro h
    rw [h, Nat.zero_mul, Nat.zero_mod]

theorem Sends.unique {f : CommandContext → Checked CommandContext} {ctx ctx₁ ctx₂ : CommandContext}
    {ps qs : List Packet} (hps : Sends f ctx ps ctx₁) (hqs : Sends f ctx qs ctx₂) : ps = qs := by
  have hbusy : ({ ctx := { sending := true } } : Outbound).ctx.sending = true := rfl
  have h := (hps { ctx := { sending := true } }).symm.trans (hqs { ctx := { sending := true } })
  rw [pushAll_busy hbusy, pushAll_busy hbusy, map_ok, map_ok] at h
  exact congrArg (fun ctx : CommandContext => ctx.out.ctx.outWaitingQueue) (Except.ok.inj h)

theorem ping_reply {packet : Packet} {value : UInt32}
    (h : userEvent packet = .ok (some (RtmpEventType.pingRequest.code, value))) (ctx : CommandContext) :
    Sends (·.handleUserMessage packet) ctx [userCtrlPacket RtmpEventType.pingResponse.code value 0] ctx := by
  intro out
  have hcall : ({ ctx with out } : CommandContext).handleUserMessage packet =
      ({ ctx with out } : CommandContext).sendMessage (userCtrlMessage RtmpEventType.pingResponse.code value 0) := by
    rw [← CommandContext.sendUserCtrlMessage_eq, CommandContext.handleUserMessage_eq, h]
    rfl
  dsimp only
  rw [hcall]
  exact Sends.sendMessage (userCtrlMessage_eq _ _ _) ctx out

/-- The message of `SendUserCtrlMessage` has its length, and is read with its type, `value1` and,
where it carries one, `value2`. -/
def UserCtrlArrives (nType : UInt16) (value1 value2 : UInt32) : Prop :=
  ∃ packet, userCtrlMessage nType value1 value2 = .ok packet ∧ packet.packetSize = userCtrlLength nType ∧
    userEvent packet = .ok (some (nType, value1)) ∧
    (nType = RtmpEventType.setBufferLength.code → readUint32T packet.data 6 = .ok value2)

/-- A ping request is answered with one user control message, the response with its value. -/
def PingAnswered (value : UInt32) : Prop :=
  ∀ packet, userEvent packet = .ok (some (RtmpEventType.pingRequest.code, value)) → ∀ ctx : CommandContext,
    ∃ reply header, Sends (·.handleUserMessage packet) ctx [reply] ctx ∧ reply.ext = some header ∧
      header.msgType = kRtmpMsgTypeUserControl ∧
      userEvent reply = .ok (some (RtmpEventType.pingResponse.code, value))

/-- No word is the type of a ping response in its high half and its own low half moved up. -/
theorem not_pingAnswered (value : UInt32) : ¬ PingAnswered value := by
  intro h
  have hrequest : userEvent { capacity := 6, data := BytesWriter.writeUint16T RtmpEventType.pingRequest.code ++
      BytesWriter.writeUint32T value } = .ok (some (RtmpEventType.pingRequest.code, value)) := by
    have hvalue := @readUint32T_write (BytesWriter.writeUint16T RtmpEventType.pingRequest.code) [] 2 value rfl
    rw [List.append_nil] at hvalue
    have htype := @readUint16T_write [] (BytesWriter.writeUint32T value) 0 RtmpEventType.pingRequest.code rfl
    rw [List.nil_append] at htype
    have hlong : ¬ (BytesWriter.writeUint16T RtmpEventType.pingRequest.code ++
        BytesWriter.writeUint32T value).length < 6 := by
      rw [List.length_append, writeUint32T_length]
      decide
    unfold userEvent
    rw [Packet.packetSize, if_neg hlong, htype, ok_bind, hvalue]
    rfl
  obtain ⟨reply, header, hsends, -, -, hevent⟩ := h _ hrequest {}
  obtain rfl := List.singleton_inj.mp (hsends.unique (ping_reply hrequest {}))
  rw [userEvent_userCtrl] at hevent
  obtain ⟨htype, hvalue⟩ := Prod.mk.inj (Option.some.inj (Except.ok.inj hevent))
  have hzero := (moved_eq_iff value).mp hvalue
  rw [hzero] at htype
  exact absurd htype (by decide)

theorem userCtrlArrives_iff (nType : UInt16) (value1 value2 : UInt32) :
    UserCtrlArrives nType value1 value2 ↔ nType = RtmpEventType.streamBegin.code ∧ value1 = 0 := by
  constructor
  · rintro ⟨packet, hpacket, -, hevent, hlast⟩
    rw [userCtrlMessage_eq] at hpacket
    obtain rfl := Except.ok.inj hpacket
    rw [userEvent_userCtrl] at hevent
    obtain ⟨htype, hvalue⟩ := Prod.mk.inj (Option.some.inj (Except.ok.inj hevent))
    by_cases hbuffer : nType = RtmpEventType.setBufferLength.code
    · -- the bytes of `value2` are not behind `value1`
      have hread : readUint32T (userCtrlPacket nType value1 value2).data 6 = .ok 0 := by
        unfold userCtrlPacket message userCtrlLength
        dsimp only
        rw [if_pos hbuffer]
        have hzero := @readUint32T_write (BytesWriter.writeUint32T (lastWord nType value1 value2) ++ [0, 0]) [] 6 0
          (by rw [List.length_append, writeUint32T_length]; rfl)
        rw [List.append_nil, List.append_assoc] at hzero
        exact hzero
      obtain rfl := Except.ok.inj (hread.symm.trans (hlast hbuffer))
      rw [lastWord, if_pos hbuffer] at htype
      rw [hbuffer] at htype
      exact absurd htype (by decide)
    · rw [lastWord, if_neg hbuffer] at htype hvalue
      obtain rfl := (moved_eq_iff value1).mp hvalue
      exact ⟨htype.symm, rfl⟩
  · rintro ⟨rfl, rfl⟩
    have hword : lastWord RtmpEventType.streamBegin.code 0 value2 = 0 := if_neg (by decide)
    have hevent := userEvent_userCtrl RtmpEventType.streamBegin.code 0 value2
    rw [hword] at hevent
    refine ⟨_, userCtrlMessage_eq _ _ _, userCtrlPacket_size _ _ _, hevent, ?_⟩
    intro hbuffer
    exact absurd hbuffer (by decide)

/-- A user control message arrives exactly where a stream begins with the value zero, and no ping is answered. -/
theorem userControl_iff (nType : UInt16) (value1 value2 value : UInt32) :
    (UserCtrlArrives nType value1 value2 ↔ nType = RtmpEventType.streamBegin.code ∧ value1 = 0) ∧
      ¬ PingAnswered value :=
  ⟨userCtrlArrives_iff nType value1 value2, not_pingAnswered value⟩

/-- The message that a stream begins with the value 1 is read as one with the value `0x10000`. -/
theorem streamBegin_misread : ¬ ((∀ (nType : UInt16) (value1 value2 : UInt32), UserCtrlArrives nType value1 value2) ∧
    ∀ value, PingAnswered value) := by
  intro h
  have hone := (userCtrlArrives_iff RtmpEventType.streamBegin.code 1 0).mp (h.1 _ _ _)
  exact absurd hone.2 (by decide)

end TmmsServer
