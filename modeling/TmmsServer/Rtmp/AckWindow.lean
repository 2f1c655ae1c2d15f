import TmmsServer.Rtmp.RtmpPair

/-!
# The acknowledgement window

The acknowledgements a context has pushed and `in_bytes_` account together for
every byte that had arrived when `ParseMessage` was last entered.
-/
namespace TmmsServer
open Lib.Words Lib.Feed

/-- The count in an acknowledgement; no other message announces any bytes. -/
def Packet.announces (packet : Packet) : Nat :=
  match packet.ext with
  | none => 0
  | some header => if header.msgType = kRtmpMsgTypeBytesRead then beValue packet.data else 0

def announced (packets : List Packet) : Nat := (packets.map Packet.announces).sum

/-- What happens to a context in `kRtmpMessage`: bytes arrive, or its socket is written. -/
inductive PeerStep where
  | reads (piece : List UInt8)
  | writes (results : List WriteResult)

/-- A context with the number of bytes that arrived behind the handshake, and of those there were
when `ParseMessage` was last entered. -/
structure AckRun where
  peer : RtmpPeer
  arrived : Nat
  entered : Nat := 0

namespace AckRun

/-- `kRtmpMessage` begins, with what the handshake left in the buffer. -/
def start (ctx : MessageContext) (leftover : List UInt8) : AckRun where
  peer := { ctx, buf := leftover }
  arrived := leftover.length

variable [Host]

def step (s : AckRun) : PeerStep → Checked AckRun
  | .reads piece => do
      let peer ← s.peer.parse piece
      return { peer, arrived := s.arrived + piece.length, entered := s.arrived + piece.length }
  | .writes results => do
      let peer ← s.peer.onWrite results
      return { s with peer }

def run (s : AckRun) (steps : List PeerStep) : Checked AckRun := steps.foldlM step s

end AckRun

theorem announced_append (ps qs : List Packet) :
    announced (ps ++ qs) = announced ps + announced qs := by
  rw [announced, List.map_append, List.sum_append]
  rfl

theorem announced_singleton (packet : Packet) : announced [packet] = packet.announces := by
  rw [announced, List.map_singleton, List.sum_singleton]

/-- The output has only got packets into its queue, and no acknowledgement among them. -/
def Outbound.QueuedQuietly (out out' : Outbound) : Prop :=
  ∃ packets, announced packets = 0 ∧
    out'.ctx = { out.ctx with outWaitingQueue := out.ctx.outWaitingQueue ++ packets }

namespace Outbound.QueuedQuietly
variable {out out₁ out₂ : Outbound}

theorem refl (out : Outbound) : QueuedQuietly out out :=
  ⟨[], rfl, by rw [List.append_nil]⟩

theorem trans (h : QueuedQuietly out out₁) (h' : QueuedQuietly out₁ out₂) :
    QueuedQuietly out out₂ := by
  obtain ⟨ps, hps, hctx⟩ := h
  obtain ⟨qs, hqs, hctx'⟩ := h'
  refine ⟨ps ++ qs, by rw [announced_append, hps, hqs], ?_⟩
  rw [hctx', hctx]
  dsimp only
  rw [List.append_assoc]

theorem sending (h : QueuedQuietly out out₁) (hbusy : out.ctx.sending = true) :
    out₁.ctx.sending = true := by
  obtain ⟨ps, -, hctx⟩ := h
  rw [hctx]
  exact hbusy

end Outbound.QueuedQuietly

/-- A call that returns does so on a busy output as well, and then only queues what it sends. -/
def Quiet (f : CommandContext → Checked CommandContext) : Prop :=
  ∀ ctx ctx' : CommandContext, f ctx = .ok ctx' → ∀ out : Outbound, out.ctx.sending = true →
    ∃ out', f { ctx with out } = .ok { ctx' with out := out' } ∧ out.QueuedQuietly out'

namespace Quiet
variable {f g : CommandContext → Checked CommandContext}

theorem bind (hf : Quiet f) (hg : Quiet g) : Quiet fun ctx => f ctx >>= g := by
  intro ctx ctx' h out hbusy
  obtain ⟨ctx₁, h₁, h₂⟩ := of_bind_ok h
  obtain ⟨out₁, hrun₁, hquiet₁⟩ := hf _ _ h₁ out hbusy
  obtain ⟨out₂, hrun₂, hquiet₂⟩ := hg _ _ h₂ out₁ (hquiet₁.sending hbusy)
  refine ⟨out₂, ?_, hquiet₁.trans hquiet₂⟩
  dsimp only
  rw [hrun₁, ok_bind, hrun₂]

theorem read {α : Type} {x : Checked α} {f : α → CommandContext → Checked CommandContext}
    (hf : ∀ a, Quiet (f a)) : Quiet fun ctx => x >>= fun a => f a ctx := by
  intro ctx ctx' h out hbusy
  obtain ⟨a, ha, h⟩ := of_bind_ok h
  obtain ⟨out', hrun, hquiet⟩ := hf a _ _ h out hbusy
  refine ⟨out', ?_, hquiet⟩
  dsimp only
  rw [ha, ok_bind, hrun]

theorem adjust {k : CommandContext → CommandContext}
    (hk : ∀ ctx out, k { ctx with out } = { k ctx with out }) : Quiet fun ctx => .ok (k ctx) := by
  intro ctx ctx' h out hbusy
  obtain rfl := Except.ok.inj h
  exact ⟨out, congrArg Except.ok (hk ctx out), .refl out⟩

theorem keep : Quiet .ok := adjust (k := id) fun _ _ => rfl

theorem tell (call : CommandContext → HandlerCall)
    (h : ∀ ctx out, call { ctx with out } = call ctx) :
    Quiet fun ctx => .ok (ctx.tell (call ctx)) := by
  refine adjust (k := fun ctx => ctx.tell (call ctx)) fun ctx out => ?_
  rw [h]
  unfold CommandContext.tell
  dsimp only
  split
  · rfl
  · rfl

theorem branch {b : CommandContext → Bool} (hb : ∀ ctx out, b { ctx with out } = b ctx)
    (hf : Quiet f) (hg : Quiet g) : Quiet fun ctx => if b ctx then f ctx else g ctx := by
  intro ctx ctx' h out hbusy
  dsimp only at h ⊢
  rw [hb]
  split at h
  next htrue =>
    rw [if_pos htrue]
    exact hf _ _ h out hbusy
  next hfalse =>
    rw [if_neg hfalse]
    exact hg _ _ h out hbusy

/-- A message that is no acknowledgement. -/
theorem sendMessage {message : CommandContext → Checked Packet}
    (hmessage : ∀ ctx out, message { ctx with out } = message ctx)
    (hquiet : ∀ ctx packet, message ctx = .ok packet → packet.announces = 0) :
    Quiet fun ctx => ctx.sendMessage (message ctx) := by
  intro ctx ctx' h out hbusy
  obtain ⟨packet, hpacket, h⟩ := of_bind_ok h
  obtain ⟨sent, -, h⟩ := of_bind_ok h
  obtain rfl := Except.ok.inj h
  refine ⟨{ out with ctx := { out.ctx with outWaitingQueue := out.ctx.outWaitingQueue ++ [packet] } }, ?_,
    [packet], ?_, rfl⟩
  · have hpush : out.pushOutQueue packet =
        .ok { out with ctx := { out.ctx with outWaitingQueue := out.ctx.outWaitingQueue ++ [packet] } } :=
      if_pos hbusy
    dsimp only
    rw [hmessage, CommandContext.sendMessage, hpacket, ok_bind, CommandContext.pushOutQueue]
    dsimp only
    rw [hpush]
    rfl
  · rw [announced_singleton, hquiet ctx packet hpacket]

theorem newMessage_quiet {capacity : Nat} {header : RtmpMsgHeader} {body : List UInt8}
    {packet : Packet}
    (htype : header.msgType ≠ kRtmpMsgTypeBytesRead)
    (h : newMessage capacity header body = .ok packet) :
    packet.announces = 0 := by
  rw [newMessage_eq] at h
  split at h
  · obtain rfl := Except.ok.inj h
    exact if_neg htype
  · exact absurd h nofun

theorem send (capacity : Nat) {header : RtmpMsgHeader} {body : CommandContext → List UInt8}
    (hbody : ∀ ctx out, body { ctx with out } = body ctx)
    (htype : header.msgType ≠ kRtmpMsgTypeBytesRead) :
    Quiet fun ctx => ctx.sendMessage (newMessage capacity header (body ctx)) :=
  sendMessage (fun ctx out => by rw [hbody]) fun _ _ h => newMessage_quiet htype h

end Quiet

namespace CommandContext

theorem takeCommandObject_quiet (p : AMFAny) {f : Bool → CommandContext → Checked CommandContext}
    (hf : ∀ amf3, Quiet (f amf3)) :
    Quiet fun ctx => ctx.takeCommandObject p >>= fun r => f r.2 r.1 := by
  intro ctx ctx' h out hbusy
  obtain ⟨⟨ctx₁, amf3⟩, htake, h⟩ := of_bind_ok h
  obtain ⟨out', hrun, hquiet⟩ := hf amf3 _ _ h out hbusy
  refine ⟨out', ?_, hquiet⟩
  dsimp only
  rw [takeCommandObject_out htake out, ok_bind]
  exact hrun

theorem sendStatus_quiet (level code description : List UInt8) :
    Quiet (·.sendStatus level code description) := Quiet.send 1024 (fun _ _ => rfl) (by decide)

theorem sendUserCtrlMessage_quiet (type : RtmpEventType) (value1 value2 : UInt32) :
    Quiet (·.sendUserCtrlMessage type value1 value2) := by
  refine Quiet.sendMessage (fun _ _ => rfl) fun ctx packet h => ?_
  obtain ⟨body, -, h⟩ := of_bind_ok h
  exact Quiet.newMessage_quiet (by decide) h

theorem handleConnect_quiet (obj : List AMFAny) : Quiet (·.handleConnect obj) := by
  have hresult : ∀ amf3, Quiet (·.sendMessage (connectResult amf3)) := fun amf3 =>
    Quiet.send 1024 (fun _ _ => rfl) (by decide)
  have hchunk : Quiet sendSetChunkSize := Quiet.send 64 (fun _ _ => rfl) (by decide)
  have hbandwidth : Quiet sendSetPeerBandwidth := Quiet.send 64 (fun _ _ => rfl) (by decide)
  have hack : Quiet sendAckWindowsSize := Quiet.send 64 (fun _ _ => rfl) (by decide)
  refine Quiet.read fun p => ?_
  exact takeCommandObject_quiet p fun amf3 => hack.bind (hbandwidth.bind (hchunk.bind (hresult amf3)))

theorem handleCreateStream_quiet (obj : List AMFAny) : Quiet (·.handleCreateStream obj) :=
  Quiet.read fun _ => Quiet.send 1024 (fun _ _ => rfl) (by decide)

theorem handlePlay_quiet (obj : List AMFAny) : Quiet (·.handlePlay obj) := by
  have htell : Quiet fun ctx => .ok (ctx.tell (.onPlay ctx.sessionName ctx.param)) :=
    Quiet.tell (fun ctx => .onPlay ctx.sessionName ctx.param) fun _ _ => rfl
  refine Quiet.read fun name => ?_
  have hname : Quiet fun ctx =>
      .ok { ({ ctx with name } : CommandContext).parseNameAndTcUrl with isPlayer := true } :=
    Quiet.adjust fun _ _ => rfl
  exact hname.bind ((sendUserCtrlMessage_quiet .streamBegin 1 0).bind ((sendStatus_quiet _ _ _).bind htell))

theorem handlePublish_quiet (obj : List AMFAny) : Quiet (·.handlePublish obj) := by
  have htell : Quiet fun ctx => .ok (ctx.tell (.onPublish ctx.sessionName ctx.param)) :=
    Quiet.tell (fun ctx => .onPublish ctx.sessionName ctx.param) fun _ _ => rfl
  refine Quiet.read fun name => ?_
  have hname : Quiet fun ctx => .ok { ctx with name, isPlayer := false } :=
    Quiet.adjust fun _ _ => rfl
  exact hname.bind ((sendStatus_quiet _ _ _).bind htell)

theorem handleResult_quiet (obj : List AMFAny) : Quiet (·.handleResult obj) := by
  refine Quiet.read fun p => ?_
  by_cases hone : p.num = whole 1
  · simp only [if_pos hone]
    exact Quiet.send 1024 (fun _ _ => rfl) (by decide)
  · simp only [if_neg hone]
    by_cases hfour : p.num = whole 4
    · simp only [if_pos hfour]
      have hplay : Quiet sendPlay := Quiet.send 1024 (fun _ _ => rfl) (by decide)
      have hpublish : Quiet sendPublish := Quiet.send 1024 (fun _ _ => rfl) (by decide)
      exact Quiet.branch (fun _ _ => rfl) hplay hpublish
    · simp only [if_neg hfour]
      by_cases hfive : p.num = whole 5
      · simp only [if_pos hfive]
        exact Quiet.tell (fun _ => .onPublishPrepare) fun _ _ => rfl
      · simp only [if_neg hfive]
        exact Quiet.keep

theorem handleError_quiet (obj : List AMFAny) : Quiet (·.handleError obj) := by
  refine Quiet.read fun p => Quiet.read fun sub => Quiet.read fun _ => ?_
  intro ctx ctx' h out hbusy
  obtain rfl := Except.ok.inj h
  exact ⟨{ out with conn := out.conn.onClose }, rfl, [], rfl, by rw [List.append_nil]⟩

theorem handleUserMessage_quiet (packet : Packet) : Quiet (·.handleUserMessage packet) := by
  unfold handleUserMessage
  by_cases hshort : packet.packetSize < 6
  · simp only [if_pos hshort]
    exact Quiet.keep
  · simp only [if_neg hshort]
    refine Quiet.read fun type => Quiet.read fun value => ?_
    cases RtmpEventType.ofCode type with
    | none => exact Quiet.keep
    | some event =>
        cases event
        case pingRequest => exact sendUserCtrlMessage_quiet .pingResponse value 0
        all_goals exact Quiet.keep

theorem handleAckWindowSize_quiet (packet : Packet) : Quiet (·.handleAckWindowSize packet) := by
  unfold handleAckWindowSize
  by_cases hlen : 4 ≤ packet.packetSize
  · simp only [if_pos hlen]
    exact Quiet.read fun size => Quiet.adjust fun _ _ => rfl
  · simp only [if_neg hlen]
    exact Quiet.keep

end CommandContext

theorem Command.handle_quiet (command : Command) (obj : List AMFAny) :
    Quiet (command.handle · obj) := by
  cases command with
  | connect => exact CommandContext.handleConnect_quiet obj
  | createStream => exact CommandContext.handleCreateStream_quiet obj
  | result => exact CommandContext.handleResult_quiet obj
  | error => exact CommandContext.handleError_quiet obj
  | play => exact CommandContext.handlePlay_quiet obj
  | publish => exact CommandContext.handlePublish_quiet obj

theorem handleAmfCommand_quiet [Host] (body : List UInt8) (amf3 : Bool) :
    Quiet (·.handleAmfCommand body amf3) := by
  refine Quiet.read fun r => ?_
  unfold CommandContext.dispatchCommand
  by_cases hret : r.ret < 0
  · simp only [if_pos hret]
    exact Quiet.keep
  · simp only [if_neg hret]
    refine Quiet.read fun p => ?_
    cases Command.find p.str with
    | none => exact Quiet.keep
    | some command => exact command.handle_quiet r.properties

namespace MessageContext

def withOut (ctx : MessageContext) (out : Outbound) : MessageContext :=
  { ctx with commands := { ctx.commands with out } }

/-- The same for a call on the whole context. -/
def Quiet (f : MessageContext → Checked MessageContext) : Prop :=
  ∀ ctx ctx' : MessageContext, f ctx = .ok ctx' → ∀ out : Outbound, out.ctx.sending = true →
    ∃ out', f (ctx.withOut out) = .ok (ctx'.withOut out') ∧ out.QueuedQuietly out'

namespace Quiet
variable {f g : MessageContext → Checked MessageContext}

theorem keep : Quiet .ok := by
  intro ctx ctx' h out hbusy
  obtain rfl := Except.ok.inj h
  exact ⟨out, rfl, .refl out⟩

theorem onRecv (packet : Packet) : Quiet fun ctx => .ok (ctx.onRecv packet) := by
  intro ctx ctx' h out hbusy
  obtain rfl := Except.ok.inj h
  refine ⟨out, congrArg Except.ok ?_, .refl out⟩
  unfold MessageContext.onRecv withOut
  dsimp only
  split
  · rfl
  · rfl

theorem commands {f : CommandContext → Checked CommandContext} (hf : TmmsServer.Quiet f) :
    Quiet fun ctx => ctx.andCommands (f ctx.commands) := by
  intro ctx ctx' h out hbusy
  obtain ⟨commands, hcommands, h⟩ := of_bind_ok h
  obtain rfl := Except.ok.inj h
  obtain ⟨out', hrun, hquiet⟩ := hf _ _ hcommands out hbusy
  refine ⟨out', ?_, hquiet⟩
  unfold andCommands withOut
  dsimp only
  rw [hrun]
  rfl

theorem branch {c : Prop} [Decidable c] (hf : Quiet f) (hg : Quiet g) :
    Quiet fun ctx => if c then f ctx else g ctx := by
  by_cases hc : c
  · simp only [if_pos hc]
    exact hf
  · simp only [if_neg hc]
    exact hg

theorem fold {α : Type} {f : MessageContext → α → Checked MessageContext} (hf : ∀ a, Quiet (f · a))
    (as : List α) : Quiet (as.foldlM f) := by
  induction as with
  | nil => exact keep
  | cons a as ih =>
      intro ctx ctx' h out hbusy
      dsimp only at h ⊢
      rw [List.foldlM_cons] at h
      obtain ⟨ctx₁, h₁, h₂⟩ := of_bind_ok h
      obtain ⟨out₁, hrun₁, hquiet₁⟩ := hf a _ _ h₁ out hbusy
      obtain ⟨out₂, hrun₂, hquiet₂⟩ := ih _ _ h₂ out₁ (hquiet₁.sending hbusy)
      refine ⟨out₂, ?_, hquiet₁.trans hquiet₂⟩
      dsimp only at hrun₁ hrun₂
      rw [List.foldlM_cons, hrun₁, ok_bind, hrun₂]

end Quiet

theorem messageComplete_quiet [Host] (data : Packet) : Quiet (·.messageComplete data) :=
  .branch .keep (.branch .keep (.branch (.commands (CommandContext.handleUserMessage_quiet data))
    (.branch (.commands (CommandContext.handleAckWindowSize_quiet data))
      (.branch (.commands (handleAmfCommand_quiet data.data false))
        (.branch (.commands (handleAmfCommand_quiet data.data true)) (.branch (.onRecv (setPacketType data)) .keep))))))

end MessageContext

/-- The acknowledgement of so many bytes. -/
def bytesReadMessage (inBytes : Int32) : Packet :=
  message 64 (controlHeader kRtmpMsgTypeBytesRead) (BytesWriter.writeUint32T inBytes.toUInt32)

theorem bytesReadMessage_announces {inBytes : Int32} (hpos : 0 ≤ inBytes.toInt) :
    ((bytesReadMessage inBytes).announces : Int) = inBytes.toInt := by
  have hword : (inBytes.toUInt32.toNat : Int) = inBytes.toInt := by
    have hsigned := BitVec.toInt_eq_toNat_cond inBytes.toBitVec
    change inBytes.toInt = _ at hsigned
    change (inBytes.toBitVec.toNat : Int) = _
    split at hsigned
    · exact hsigned.symm
    · omega
  have hlt := inBytes.toUInt32.toNat_lt
  have hvalue : (bytesReadMessage inBytes).announces =
      beValue (BytesWriter.writeUint32T inBytes.toUInt32) := by
    unfold Packet.announces bytesReadMessage message
    exact if_pos rfl
  have hmod : inBytes.toUInt32.toNat % 256 ^ 4 = inBytes.toUInt32.toNat := Nat.mod_eq_of_lt hlt
  rw [hvalue, BytesWriter.writeUint32T, beValue_beBytes, hmod, hword]

/-- `SendBytesRecv` leaves the count or announces it, on a busy output as well. -/
theorem sendBytesRecv_announces {ctx ctx' : CommandContext} {inBytes inBytes' : Int32}
    (h : ctx.sendBytesRecv inBytes = .ok (ctx', inBytes')) (hpos : 0 ≤ inBytes.toInt) {out : Outbound}
    (hbusy : out.ctx.sending = true) :
    ∃ out' packets, ({ ctx with out } : CommandContext).sendBytesRecv inBytes =
        .ok ({ ctx' with out := out' }, inBytes') ∧
      out'.ctx = { out.ctx with outWaitingQueue := out.ctx.outWaitingQueue ++ packets } ∧
      announced packets + inBytes'.toInt = inBytes.toInt ∧ 0 ≤ inBytes'.toInt := by
  unfold CommandContext.sendBytesRecv at h ⊢
  dsimp only
  split at h
  next hdue =>
    rw [if_pos hdue]
    obtain ⟨ctx₁, hsend, h⟩ := of_bind_ok h
    obtain ⟨rfl, rfl⟩ := Prod.mk.inj (Except.ok.inj h)
    have hfits : newMessage 64 (controlHeader kRtmpMsgTypeBytesRead) (BytesWriter.writeUint32T inBytes.toUInt32) =
        .ok (bytesReadMessage inBytes) := newMessage_fits (by rw [writeUint32T_length]; decide)
    rw [hfits] at hsend ⊢
    obtain ⟨packet, -, hsend⟩ := of_bind_ok hsend
    obtain ⟨sent, -, hsend⟩ := of_bind_ok hsend
    obtain rfl := Except.ok.inj hsend
    have hpush : out.pushOutQueue (bytesReadMessage inBytes) =
        .ok { out with
          ctx := { out.ctx with outWaitingQueue := out.ctx.outWaitingQueue ++ [bytesReadMessage inBytes] } } :=
      if_pos hbusy
    refine ⟨{ out with
        ctx := { out.ctx with outWaitingQueue := out.ctx.outWaitingQueue ++ [bytesReadMessage inBytes] } },
      [bytesReadMessage inBytes], ?_, rfl, ?_, Int.le_refl 0⟩
    · rw [CommandContext.sendMessage, ok_bind, CommandContext.pushOutQueue]
      dsimp only
      rw [hpush]
      rfl
    · rw [announced_singleton, bytesReadMessage_announces hpos, Int32.toInt_zero, Int.add_zero]
  next hearly =>
    rw [if_neg hearly]
    obtain ⟨rfl, rfl⟩ := Prod.mk.inj (Except.ok.inj h)
    exact ⟨out, [], rfl, by rw [List.append_nil], Int.zero_add _, hpos⟩

section Runs
variable [Host]

/-- What `Parse` pushes announces the bytes that are no longer in `in_bytes_`. -/
theorem RtmpPeer.respond_announces {p : RtmpPeer} {piece : List UInt8} {ctx' : MessageContext}
    {inBytes' : Int32} (h : p.respond piece p.ctx = .ok (ctx', inBytes'))
    (hpos : 0 ≤ (p.inBytes + (Int32.ofNat (p.buf ++ piece).length - p.lastLeft)).toInt) :
    announced (pushedBy (fun commands => (p.respond piece { p.ctx with commands }).map (·.1.commands)) p.ctx.commands) +
      inBytes'.toInt = (p.inBytes + (Int32.ofNat (p.buf ++ piece).length - p.lastLeft)).toInt ∧
      0 ≤ inBytes'.toInt := by
  unfold RtmpPeer.respond at h
  dsimp only at h
  obtain ⟨⟨commands, left⟩, hsend, h⟩ := of_bind_ok h
  obtain ⟨ctx₁, hmessages, h⟩ := of_bind_ok h
  obtain ⟨rfl, rfl⟩ := Prod.mk.inj (Except.ok.inj h)
  obtain ⟨out₁, packets, hrun₁, hout₁, hsum, hleft⟩ :=
    @sendBytesRecv_announces _ _ _ _ hsend hpos { ctx := { sending := true } } rfl
  obtain ⟨out₂, hrun₂, replies, hquiet, hout₂⟩ :=
    MessageContext.Quiet.fold MessageContext.messageComplete_quiet _ _ _ hmessages out₁ (by rw [hout₁])
  have hpushed :
      pushedBy (fun commands => (p.respond piece { p.ctx with commands }).map (·.1.commands)) p.ctx.commands =
        packets ++ replies := by
    unfold pushedBy RtmpPeer.respond
    dsimp only
    rw [hrun₁, ok_bind]
    dsimp only [MessageContext.withOut] at hrun₂ ⊢
    rw [hrun₂, ok_bind]
    change out₂.ctx.outWaitingQueue = _
    rw [hout₂, hout₁]
    rfl
  rw [hpushed, announced_append, hquiet]
  exact ⟨hsum, hleft⟩

end Runs

/-- In `in_bytes_` and the acknowledgements are the bytes there were at the last entry; what was
left unread then is still in front of the buffer. -/
structure AckRun.Balanced (s : AckRun) : Prop where
  sum : announced s.peer.pushed + s.peer.inBytes.toInt = s.entered
  nonneg : 0 ≤ s.peer.inBytes.toInt
  left : ∃ left : Nat, s.peer.lastLeft = Int32.ofNat left ∧ left ≤ s.peer.buf.length ∧
    s.entered + s.peer.buf.length = s.arrived + left
  unread : s.peer.buf.length ≤ s.arrived

theorem int32_eq_ofNat {x : Int32} (h : 0 ≤ x.toInt) : x = Int32.ofNat x.toInt.toNat := by
  have hlt : x.toInt < 2 ^ 31 := x.toInt_lt
  refine Int32.toInt_inj.mp ?_
  rw [Int32.toInt_ofNat_of_lt (by omega), Int.toNat_of_nonneg h]

/-- The bytes that are new are those that were not left unread. -/
theorem AckRun.Balanced.count {s : AckRun} (h : s.Balanced) (piece : List UInt8)
    (hlt : s.arrived + piece.length < 2 ^ 31) :
    announced s.peer.pushed +
        (s.peer.inBytes + (Int32.ofNat (s.peer.buf ++ piece).length - s.peer.lastLeft)).toInt =
        (s.arrived + piece.length : Nat) ∧
      0 ≤ (s.peer.inBytes + (Int32.ofNat (s.peer.buf ++ piece).length - s.peer.lastLeft)).toInt := by
  have hsum := h.sum
  have hnonneg := h.nonneg
  obtain ⟨left, hleft, hle, hentered⟩ := h.left
  have hunread := h.unread
  have hin := int32_eq_ofNat hnonneg
  obtain ⟨n, hn⟩ : ∃ n : Nat, s.peer.inBytes.toInt.toNat + (s.peer.buf ++ piece).length =
      n + left := by
    refine ⟨s.peer.inBytes.toInt.toNat + (s.peer.buf ++ piece).length - left, ?_⟩
    rw [List.length_append]
    omega
  have hword : s.peer.inBytes + (Int32.ofNat (s.peer.buf ++ piece).length - s.peer.lastLeft) =
      Int32.ofNat n := by
    have hofNat := congrArg Int32.ofNat hn
    rw [Int32.ofNat_add, Int32.ofNat_add] at hofNat
    rw [hin, hleft]
    grind
  rw [List.length_append] at hn
  rw [hword, Int32.toInt_ofNat_of_lt (by omega)]
  exact ⟨by omega, by omega⟩

theorem AckRun.start_balanced (ctx : MessageContext) (leftover : List UInt8) :
    (start ctx leftover).Balanced :=
  ⟨rfl, Int.le_refl 0, ⟨0, rfl, Nat.zero_le _, Nat.add_comm _ _⟩, Nat.le_refl _⟩

section Runs
variable [Host]

theorem AckRun.step_arrived {s s' : AckRun} {e : PeerStep} (h : s.step e = .ok s') :
    s.arrived ≤ s'.arrived := by
  cases e with
  | reads piece =>
      obtain ⟨peer, -, h⟩ := of_bind_ok h
      obtain rfl := Except.ok.inj h
      exact Nat.le_add_right _ _
  | writes results =>
      obtain ⟨peer, -, h⟩ := of_bind_ok h
      obtain rfl := Except.ok.inj h
      exact Nat.le_refl _

/-- A step keeps the balance. -/
theorem AckRun.Balanced.step {s s' : AckRun} (hs : s.Balanced) {e : PeerStep}
    (h : s.step e = .ok s') (hlt : s'.arrived < 2 ^ 31) : s'.Balanced := by
  cases e with
  | writes results =>
      obtain ⟨peer, hpeer, h⟩ := of_bind_ok h
      obtain rfl := Except.ok.inj h
      obtain ⟨out, -, hpeer⟩ := of_bind_ok hpeer
      obtain rfl := Except.ok.inj hpeer
      exact ⟨hs.sum, hs.nonneg, hs.left, hs.unread⟩
  | reads piece =>
      obtain ⟨peer, hpeer, h⟩ := of_bind_ok h
      obtain rfl := Except.ok.inj h
      obtain ⟨⟨ctx, inBytes⟩, hrespond, hpeer⟩ := of_bind_ok hpeer
      obtain ⟨⟨inn, buf⟩, hfin, hpeer⟩ := of_bind_ok hpeer
      obtain rfl := Except.ok.inj hpeer
      obtain ⟨hcount, hnonneg⟩ := hs.count piece hlt
      obtain ⟨hsum, hleft⟩ := RtmpPeer.respond_announces hrespond hnonneg
      have hunread := hs.unread
      have hlen : (s.peer.buf ++ piece).length ≤ s.arrived + piece.length := by
        rw [List.length_append]
        omega
      have hbuf : buf.length ≤ (s.peer.buf ++ piece).length := by
        rw [parseMessage_eq_drain _ _ (by dsimp only at hlt; omega)] at hfin
        exact (drain_settled parseChunk_resumable (by dsimp only at hlt; omega) hfin).1
      refine ⟨?_, hleft, ⟨buf.length, rfl, Nat.le_refl _, rfl⟩, Nat.le_trans hbuf hlen⟩
      dsimp only
      rw [announced_append, Nat.cast_add, Int.add_assoc, hsum]
      exact hcount

theorem AckRun.run_arrived (steps : List PeerStep) {s s' : AckRun} (h : s.run steps = .ok s') :
    s.arrived ≤ s'.arrived := by
  induction steps generalizing s with
  | nil =>
      obtain rfl := Except.ok.inj h
      exact Nat.le_refl _
  | cons e steps ih =>
      rw [run, List.foldlM_cons] at h
      obtain ⟨s₁, hstep, h⟩ := of_bind_ok h
      exact Nat.le_trans (step_arrived hstep) (ih h)

theorem AckRun.run_balanced (steps : List PeerStep) {s s' : AckRun} (hs : s.Balanced)
    (h : s.run steps = .ok s') (hlt : s'.arrived < 2 ^ 31) : s'.Balanced := by
  induction steps generalizing s with
  | nil =>
      obtain rfl := Except.ok.inj h
      exact hs
  | cons e steps ih =>
      rw [run, List.foldlM_cons] at h
      obtain ⟨s₁, hstep, h⟩ := of_bind_ok h
      exact ih (hs.step hstep (Nat.lt_of_le_of_lt (run_arrived steps h) hlt)) h

/-- Every byte is counted once: in an acknowledgement or in `in_bytes_`. -/
theorem acknowledged_bytes (ctx : MessageContext) (leftover : List UInt8) (steps : List PeerStep)
    (s : AckRun) (hrun : (AckRun.start ctx leftover).run steps = .ok s) (hlt : s.arrived < 2 ^ 31) :
    announced s.peer.pushed + s.peer.inBytes.toInt = s.entered :=
  (AckRun.run_balanced steps (AckRun.start_balanced ctx leftover) hrun hlt).sum

end Runs

/-- A window of two bytes, and a message of thirteen in four parts: what stays unread over three calls counts once. -/
theorem acknowledged_bytes_parts : ∃ s, @AckRun.run ⟨fun _ => 0⟩
    (AckRun.start { commands := { ackSize := 2, out := { ctx := { sending := true } } } } [2, 0])
    [.reads [0, 0], .reads [0, 0, 1], .reads [8, 0, 0, 0, 0, 0xAA]] = .ok s ∧ s.peer.buf = [] ∧
      announced s.peer.pushed + s.peer.inBytes.toInt = 13 :=
  ⟨_, rfl, rfl, @acknowledged_bytes ⟨fun _ => 0⟩
    { commands := { ackSize := 2, out := { ctx := { sending := true } } } } [2, 0]
    [.reads [0, 0], .reads [0, 0, 1], .reads [8, 0, 0, 0, 0, 0xAA]] _ rfl (by decide)⟩

end TmmsServer
