import TmmsServer.Rtmp.PairDialogue

/-!
# Chunk sizes of two peers

A receiver starts with chunks of 128 bytes, a sender with 4096. Both sides
announce theirs before they send a message of more than 128 bytes, and no message
of the dialogue needs a second chunk.
-/
namespace TmmsServer
open Lib.Words Lib.Feed

/-- A message of at most 1024 bytes on one of the low chunk streams; no chunk size but 4096 is announced. -/
structure Packet.Brief (packet : Packet) (header : RtmpMsgHeader) : Prop extends packet.Light header where
  csId_lo : 2 ≤ header.csId
  size : packet.data.length ≤ 1024
  announces : header.msgType = kRtmpMsgTypeChunkSize → packet = setChunkSizeMessage

theorem message_brief {capacity : Nat} {header : RtmpMsgHeader} {body : List UInt8}
    (hlow : header.csId < 64)
    (hlo : 2 ≤ header.csId) (hpos : 0 < body.length) (hfit : body.length ≤ 1024)
    (htype : header.msgType ≠ kRtmpMsgTypeChunkSize) : ∃ h, (message capacity header body).Brief h :=
  ⟨{ header with msgLen := UInt32.ofNat body.length }, message_light hlow hpos hfit, hlo, hfit, fun h => absurd h htype⟩

theorem setChunkSizeMessage_brief : ∃ header, setChunkSizeMessage.Brief header :=
  ⟨_, message_light (by decide) (by decide) (by decide), by decide, by decide, fun _ => rfl⟩

section Brief
variable {packet : Packet} {header : RtmpMsgHeader}

theorem Packet.Brief.sendable (h : packet.Brief header) : Sendable packet header where
  ext := h.ext
  csId_lo := h.csId_lo
  csId_hi := by
    have hlow := UInt32.lt_iff_toNat_lt.mp h.low
    rw [UInt32.le_iff_toNat_le]
    exact Nat.le_trans (Nat.le_of_lt hlow) (by decide)
  msgLen := h.len
  msgLen_pos := by
    rw [h.len]
    exact h.pos
  msgLen_lt := by
    have hsize := h.size
    rw [h.len]
    omega
  keeps := by
    intro htype _
    rw [h.announces (UInt8.toNat_inj.mp htype)]
    decide

theorem Packet.Brief.messageComplete (h : packet.Brief header) (r : RtmpIn) :
    r.messageComplete (.received { header with timestamp := 0 } packet.data) =
      if packet = setChunkSizeMessage then { r with inChunkSize := 4096 } else r := by
  split
  next heq =>
    subst heq
    obtain rfl := Option.some.inj (h.ext.symm.trans rfl)
    rfl
  next hne =>
    exact if_neg fun htype => hne (h.announces (UInt8.toNat_inj.mp htype))

end Brief

/-- The message with the length of its body, as it is read. -/
def Packet.item (packet : Packet) : Int × List Packet :=
  ((packet.data.length : Int), [packet.asReceived])

/-- What a sender remembers before its first message. -/
abbrev freshHistory : OutHistory := RtmpOut.stream {}

/-- The receiver when it will have read all that was pushed. -/
structure Abreast (pushed : List Packet) (fin : RtmpIn) : Prop where
  links : ∀ csid, Linked (freshHistory.nextAll pushed csid) false (fin.stream csid)
  chunkSize : fin.inChunkSize = if setChunkSizeMessage ∈ pushed then 4096 else 128

theorem abreast_nil : Abreast [] {} where
  links _ := ⟨rfl, rfl, rfl, fun _ => rfl, fun h => absurd (show timestampField 0 = 0xFFFFFF from h) (by decide)⟩
  chunkSize := rfl

theorem linked_setStream {history : OutHistory} {r : RtmpIn} {packet : Packet}
    {header : RtmpMsgHeader} {t : InStream}
    (hext : packet.ext = some header) (hlinks : ∀ csid, Linked (history csid) false (r.stream csid))
    (hlink : Linked ((history header.csId).after header 0 false) false t) (csid : UInt32) :
    Linked (history.next packet csid) false ((r.setStream header.csId t).stream csid) := by
  rw [OutHistory.next, hext]
  dsimp only
  by_cases hcs : csid = header.csId
  · subst hcs
    rw [Function.update_self, RtmpIn.stream_setStream]
    exact hlink
  · rw [Function.update_of_ne hcs, RtmpIn.stream_setStream_ne _ _ hcs]
    exact hlinks csid

/-- One more message, which the announced chunk size allows, is one more item for the receiver. -/
theorem Abreast.push {pushed : List Packet} {fin : RtmpIn} {packet : Packet}
    {header : RtmpMsgHeader} (h : Abreast pushed fin) (hp : packet.Brief header)
    (hfits : setChunkSizeMessage ∈ pushed ∨ packet.data.length ≤ 128) :
    ∃ fin', Takes (noted bodyLength parseStep) (2 ^ 31 - 1) fin ((freshHistory.nextAll pushed).encode packet) fin'
        [packet.item] ∧ Abreast (pushed ++ [packet]) fin' := by
  have hsize := hp.size
  have hroom : (packet.data.length : Int) ≤ fin.inChunkSize.toInt := by
    rw [h.chunkSize]
    split
    next =>
      change _ ≤ (4096 : Int)
      omega
    next hnone =>
      change _ ≤ (128 : Int)
      rcases hfits with hmem | hle
      · exact absurd hmem hnone
      · omega
  obtain ⟨t, hstep, hlink, hbody, hsmall⟩ :=
    parseStep_short hp.sendable (h.links header.csId) hroom (by omega)
  have hencode : (freshHistory.nextAll pushed).encode packet =
      (freshHistory.nextAll pushed header.csId).encode header packet.data 0 false := by
    rw [OutHistory.encode, hp.ext]
  have hitem : packet.item =
      ((packet.data.length : Int), [Packet.received { header with timestamp := 0 } packet.data]) := by
    rw [Packet.item, Packet.asReceived, hp.ext]
  refine ⟨(fin.setStream header.csId t).messageComplete (.received { header with timestamp := 0 } packet.data),
    ?_, ?_, ?_⟩
  · rw [hencode, hitem]
    apply Takes.one hsmall
    rw [noted, hstep, hbody]
    rfl
  · intro csid
    rw [messageComplete_stream, OutHistory.nextAll_append]
    exact linked_setStream hp.ext h.links hlink csid
  · rw [hp.messageComplete]
    by_cases heq : packet = setChunkSizeMessage
    · rw [if_pos heq, if_pos (by rw [heq]; exact List.mem_append_right _ List.mem_cons_self)]
    · have hmem : setChunkSizeMessage ∈ pushed ++ [packet] ↔ setChunkSizeMessage ∈ pushed := by
        rw [List.mem_append, List.mem_singleton, or_iff_left (Ne.symm heq)]
      rw [if_neg heq, RtmpIn.setStream_inChunkSize, h.chunkSize]
      exact if_congr hmem.symm rfl rfl

/-- The receiver of what was pushed, of which so many bytes arrived. -/
structure Inbox (pushed : List Packet) (delivered : Nat) (p : RtmpPeer) : Prop where
  delivered_le : delivered ≤ (freshHistory.encodeAll pushed).length
  buf_le : p.buf.length ≤ delivered
  inBytes : p.inBytes = Int32.ofNat delivered
  lastLeft : p.lastLeft = Int32.ofNat p.buf.length
  row : ∃ done todo fin, pushed = done ++ todo ∧ p.completed = done.map Packet.asReceived ∧
    p.bodies = done.map (fun packet => (packet.data.length : Int)) ∧
    Takes (noted bodyLength parseStep) (2 ^ 31 - 1) p.inn
      (p.buf ++ (freshHistory.encodeAll pushed).drop delivered) fin (todo.map Packet.item) ∧
      Abreast pushed fin

theorem inbox_nil (ctx : MessageContext) (pushed : List Packet) : Inbox [] 0 { ctx, pushed } where
  delivered_le := Nat.zero_le _
  buf_le := Nat.le_refl _
  inBytes := rfl
  lastLeft := rfl
  row := ⟨[], [], {}, rfl, rfl, rfl, .nil _, abreast_nil⟩

section Inbox
variable {pushed : List Packet} {delivered : Nat} {p : RtmpPeer}

theorem Inbox.push {packet : Packet} {header : RtmpMsgHeader} (h : Inbox pushed delivered p)
    (hp : packet.Brief header)
    (hfits : setChunkSizeMessage ∈ pushed ∨ packet.data.length ≤ 128) :
    Inbox (pushed ++ [packet]) delivered p := by
  have hle := h.delivered_le
  have hmore : freshHistory.encodeAll (pushed ++ [packet]) =
      freshHistory.encodeAll pushed ++ (freshHistory.nextAll pushed).encode packet := by
    rw [OutHistory.encodeAll_append]
    exact congrArg _ (List.append_nil _)
  obtain ⟨done, todo, fin, hsplit, hcompleted, hbodies, htakes, habreast⟩ := h.row
  obtain ⟨fin', hnext, habreast'⟩ := habreast.push hp hfits
  refine ⟨?_, h.buf_le, h.inBytes, h.lastLeft, done, todo ++ [packet], fin', ?_, hcompleted, hbodies, ?_, habreast'⟩
  · rw [hmore, List.length_append]
    omega
  · rw [hsplit, List.append_assoc]
  · rw [hmore, List.drop_append_of_le_length hle, ← List.append_assoc, List.map_append]
    exact htakes.append hnext

end Inbox

/-- What a side pushes in the course of the dialogue: brief messages, and none of more than 128
bytes before it announces its chunk size. -/
structure Script.Sound (s : Script) : Prop where
  brief : ∀ packet ∈ s.sent, ∃ header, packet.Brief header
  announces : ∃ before behind, s.sent = before ++ setChunkSizeMessage :: behind ∧
    ∀ packet ∈ before, packet.data.length ≤ 128
  few : s.sent.length ≤ 8

section Script
variable {s : Script} {pushed : List Packet}

theorem Script.Sound.next (hs : s.Sound) {packet : Packet} (h : pushed ++ [packet] <+: s.sent) :
    setChunkSizeMessage ∈ pushed ∨ packet.data.length ≤ 128 := by
  obtain ⟨before, behind, hsent, hbefore⟩ := hs.announces
  obtain ⟨rest, hrest⟩ := h
  rw [hsent, List.append_assoc] at hrest
  rcases List.append_eq_append_iff.mp hrest with ⟨x, rfl, hx⟩ | ⟨x, rfl, hx⟩
  · right
    cases x with
    | nil =>
        obtain ⟨rfl, -⟩ := List.cons.inj hx
        decide
    | cons y x =>
        obtain ⟨rfl, -⟩ := List.cons.inj hx
        exact hbefore packet (List.mem_append_right _ List.mem_cons_self)
  · cases x with
    | nil =>
        right
        obtain ⟨rfl, -⟩ := List.cons.inj hx
        decide
    | cons y x =>
        left
        obtain ⟨rfl, -⟩ := List.cons.inj hx
        exact List.mem_append_right _ List.mem_cons_self

theorem Inbox.pushAll {delivered : Nat} {p : RtmpPeer} (hs : s.Sound) (packets : List Packet)
    (h : Inbox pushed delivered p) (hfront : pushed ++ packets <+: s.sent) :
    Inbox (pushed ++ packets) delivered p := by
  induction packets generalizing pushed with
  | nil =>
      rw [List.append_nil]
      exact h
  | cons packet packets ih =>
      rw [List.append_cons] at hfront ⊢
      have hfirst : pushed ++ [packet] <+: s.sent := (List.prefix_append _ _).trans hfront
      obtain ⟨header, hp⟩ := hs.brief packet (hfirst.subset (List.mem_append_right _ List.mem_cons_self))
      exact ih (h.push hp (hs.next hfirst)) hfront

end Script

theorem OutHistory.encodeAll_brief (h : OutHistory) (packets : List Packet)
    (hbrief : ∀ packet ∈ packets, ∃ header, packet.Brief header) :
    (h.encodeAll packets).length ≤ 1036 * packets.length := by
  induction packets generalizing h with
  | nil => exact Nat.zero_le _
  | cons packet packets ih =>
      obtain ⟨header, hp⟩ := hbrief packet List.mem_cons_self
      have hrest := ih (h.next packet) fun p hmem => hbrief p (List.mem_cons_of_mem _ hmem)
      have hsize := hp.size
      have hneed := headerNeed_short header 0 false hp.low (by decide) (h header.csId)
      have hnone : continuations header.msgLen.toNat = 0 := by
        rw [hp.len]
        unfold continuations
        omega
      have hfirst : (h.encode packet).length =
          (h header.csId).headerNeed header 0 false + packet.data.length := by
        rw [OutHistory.encode, hp.ext]
        exact OutStream.encode_length _ 0 false hp.len
      rw [OutHistory.encodeAll, List.length_append, List.length_cons, hfirst]
      omega

/-- Whatever arrives is a row of whole messages, each with the body length it was pushed with, and a rest. -/
theorem Inbox.read {pushed : List Packet} {delivered : Nat} {p : RtmpPeer}
    (h : Inbox pushed delivered p)
    (hfew : (freshHistory.encodeAll pushed).length < 2500000) {piece : List UInt8}
    (hpiece : piece <+: (freshHistory.encodeAll pushed).drop delivered) :
    ∃ done first inn buf, done ++ first <+: pushed ∧ p.completed = done.map Packet.asReceived ∧
      parseMessage p.inn (p.buf ++ piece) = ⟨first.map Packet.asReceived, .ok (inn, buf)⟩ ∧
      delivered + piece.length < 2500000 ∧
      ∀ ctx pushed', Inbox pushed (delivered + piece.length)
        { inn, buf, ctx
          inBytes := Int32.ofNat (delivered + piece.length)
          lastLeft := Int32.ofNat buf.length
          completed := p.completed ++ first.map Packet.asReceived
          bodies := p.bodies ++ chunkBodies p.inn (p.buf ++ piece)
          pushed := pushed' } := by
  have hle := h.delivered_le
  have hbuf := h.buf_le
  obtain ⟨done, todo, fin, hsplit, hcompleted, hbodies, htakes, habreast⟩ := h.row
  obtain ⟨behind, hbehind⟩ := hpiece
  have htotal := congrArg List.length hbehind
  rw [List.length_append, List.length_drop] at htotal
  have hdrop : (freshHistory.encodeAll pushed).drop (delivered + piece.length) = behind := by
    rw [← List.drop_drop, ← hbehind, List.drop_left]
  rw [← hbehind, ← List.append_assoc] at htakes
  have hlen : (p.buf ++ piece).length = p.buf.length + piece.length := List.length_append
  obtain ⟨inn, buf, out₁, out₂, hdrain, hrest, hout⟩ :=
    drain_takes parseStep_noted (by omega) htakes
  obtain ⟨first, rest, htodo, rfl, rfl⟩ := List.map_eq_append_iff.mp hout
  have hfin : (drain (noted bodyLength parseStep) p.inn (p.buf ++ piece)).fin =
      .ok (inn, buf) := by rw [hdrain]
  have hleft := (drain_settled parseStep_noted (by omega) hfin).1
  have hitems : (first.map Packet.item).flatMap Prod.snd = first.map Packet.asReceived := by
    rw [List.flatMap_map]
    exact List.map_eq_flatMap.symm
  have hparse : parseMessage p.inn (p.buf ++ piece) =
      ⟨first.map Packet.asReceived, .ok (inn, buf)⟩ := by
    rw [parseMessage_eq_drain _ _ (by omega), ← drain_noted (f := bodyLength), hdrain,
      Reading.erase, hitems]
  have hlengths : chunkBodies p.inn (p.buf ++ piece) =
      first.map (fun packet => (packet.data.length : Int)) := by
    rw [chunkBodies, hdrain, List.map_map]
    rfl
  refine ⟨done, first, inn, buf, ?_, hcompleted, hparse, by omega, fun ctx pushed' => ?_⟩
  · rw [hsplit, htodo, ← List.append_assoc]
    exact List.prefix_append _ _
  · refine ⟨by omega, by dsimp only; omega, rfl, rfl, done ++ first, rest, fin, ?_, ?_, ?_, ?_, habreast⟩
    · rw [hsplit, htodo, List.append_assoc]
    · rw [hcompleted, List.map_append]
    · rw [hbodies, hlengths, List.map_append]
    · rw [hdrop]
      exact hrest

/-! ## Steps of the two sides -/

theorem sendBytesRecv_early {ctx : CommandContext} (hack : ctx.ackSize = 2500000) {n : Nat}
    (h : n < 2500000) : ctx.sendBytesRecv (Int32.ofNat n) = .ok (ctx, Int32.ofNat n) := by
  refine if_neg fun hle => ?_
  rw [hack, Int32.le_iff_toInt_le, Int32.toInt_ofNat_of_lt (by omega)] at hle
  change (2500000 : Int) ≤ n at hle
  omega

section Sides
variable [Host]

theorem Converses.withOut {ctx : CommandContext} {exchanges : List Exchange}
    (h : Converses ctx exchanges) (out : Outbound) : Converses { ctx with out } exchanges := by
  cases exchanges with
  | nil => exact h
  | cons e exchanges => exact h

/-- `p` is on its way through its script, and has received so many bytes of `q`. -/
structure Side (s : Script) (p q : RtmpPeer) (delivered : Nat) : Prop where
  talk : ∃ done rest, s.exchanges = done ++ rest ∧ p.completed = done.map (·.packet.asReceived) ∧
    p.pushed = s.opening ++ done.flatMap Exchange.replies ∧ Converses p.ctx.commands rest
  out : Accounted freshHistory p.pushed p.ctx.commands.out
  inbox : Inbox q.pushed delivered p

variable {s s' : Script} {p q : RtmpPeer} {n m : Nat}

theorem Side.pushed_prefix (h : Side s p q n) : p.pushed <+: s.sent := by
  obtain ⟨done, rest, hsplit, -, hpushed, -⟩ := h.talk
  rw [hpushed, Script.sent, hsplit, List.flatMap_append, ← List.append_assoc]
  exact List.prefix_append _ _

theorem Side.pushed_light (h : Side s p q n) (hs : s.Sound) :
    ∀ packet ∈ p.pushed, ∃ header, packet.Light header :=
  fun packet hmem => (hs.brief packet (h.pushed_prefix.subset hmem)).imp fun _ hp => hp.toLight

theorem Side.sent_length (h : Side s p q n) (hs : s.Sound) :
    (freshHistory.encodeAll p.pushed).length < 2500000 := by
  have hfew := hs.few
  have hlen := h.pushed_prefix.length_le
  have hbytes := freshHistory.encodeAll_brief p.pushed fun packet hmem =>
    hs.brief packet (h.pushed_prefix.subset hmem)
  omega

theorem Side.writes (hp : Side s p q n) (hq : Side s' q p m) (hs : s.Sound) (turn : WriteTurn) :
    ∃ p', p.onWrite turn.1 = .ok p' ∧ Side s p' q n ∧ Side s' q p' m := by
  obtain ⟨out, hwrite, hout⟩ := onWrite_light hp.out (hp.pushed_light hs) turn.2
  obtain ⟨done, rest, hsplit, hcompleted, hpushed, hconverses⟩ := hp.talk
  have hinbox := hp.inbox
  refine ⟨{ p with ctx := { p.ctx with commands := { p.ctx.commands with out } } }, ?_, ?_, ?_⟩
  · rw [RtmpPeer.onWrite, hwrite]
    rfl
  · exact ⟨⟨done, rest, hsplit, hcompleted, hpushed, hconverses.withOut out⟩, hout,
      ⟨hinbox.delivered_le, hinbox.buf_le, hinbox.inBytes, hinbox.lastLeft, hinbox.row⟩⟩
  · exact ⟨hq.talk, hq.out, hq.inbox⟩

theorem Side.arriving_prefix (hq : Side s' q p m) (n k : Nat) :
    RtmpPair.arriving q.wire n k <+: (freshHistory.encodeAll q.pushed).drop n := by
  obtain ⟨rest, hrest⟩ := hq.out.disciplined.wire
  rw [← hrest, List.drop_append]
  exact (List.take_prefix k _).trans (List.prefix_append _ _)

/-- What a delivery of whole messages makes of the context, whatever its output is. -/
theorem respond_row {first : List Packet} {fin : Except Fault (RtmpIn × List UInt8)}
    {piece : List UInt8}
    {ctx' : CommandContext} {replies : List Packet} {received : List Packet}
    (hack : p.ctx.commands.ackSize = 2500000)
    (hbytes : p.inBytes = Int32.ofNat n) (hleft : p.lastLeft = Int32.ofNat p.buf.length)
    (hearly : n + piece.length < 2500000)
    (hparse : parseMessage p.inn (p.buf ++ piece) = ⟨first.map Packet.asReceived, fin⟩)
    (hrun : ∀ received out, (first.map Packet.asReceived).foldlM MessageContext.messageComplete
      ⟨{ p.ctx.commands with out }, received⟩ = (out.pushAll replies).map fun out => ⟨{ ctx' with out }, received⟩)
    (out : Outbound) :
    p.respond piece ⟨{ p.ctx.commands with out }, received⟩ =
      (out.pushAll replies).map fun out => (⟨{ ctx' with out }, received⟩, Int32.ofNat (n + piece.length)) := by
  have hcount : p.inBytes + (Int32.ofNat (p.buf ++ piece).length - p.lastLeft) =
      Int32.ofNat (n + piece.length) := by
    rw [hbytes, hleft, List.length_append, Int32.ofNat_add, Int32.ofNat_add]
    grind
  have hsize : ({ p.ctx.commands with out } : CommandContext).ackSize = 2500000 := hack
  have hwindow := sendBytesRecv_early hsize hearly
  unfold RtmpPeer.respond
  dsimp only
  rw [hcount, hwindow, ok_bind, hparse]
  dsimp only
  rw [hrun]
  cases out.pushAll replies with
  | error e => rfl
  | ok out => rfl

omit [Host] in
/-- The messages read are the next ones of the script. -/
theorem next_exchanges {done rest : List Exchange} {done' first sent completed : List Packet}
    (hcompleted : completed = done.map (·.packet.asReceived))
    (hcompleted' : completed = done'.map Packet.asReceived)
    (hmatch : (done ++ rest).map Exchange.packet = sent) (hread : done' ++ first <+: sent) :
    ∃ now later, rest = now ++ later ∧ now.map (·.packet.asReceived) =
      first.map Packet.asReceived := by
  obtain ⟨behind, hbehind⟩ := hread
  have hcount : (done.map Exchange.packet).length = done'.length := by
    have hlen := congrArg List.length (hcompleted.symm.trans hcompleted')
    rwa [List.length_map, List.length_map, ← @List.length_map _ _ done Exchange.packet] at hlen
  have hrow : done.map Exchange.packet ++ rest.map Exchange.packet =
      done' ++ (first ++ behind) := by
    rw [← List.map_append, hmatch, ← hbehind, List.append_assoc]
  obtain ⟨-, hnext⟩ := List.append_inj hrow hcount
  obtain ⟨now, later, rfl, hnow, -⟩ := List.map_eq_append_iff.mp hnext
  refine ⟨now, later, rfl, ?_⟩
  rw [← hnow, List.map_map]
  rfl

/-- What is read is answered, and the answers are pushed behind what there was. -/
theorem respond_pushes {piece : List UInt8} {ctx' : CommandContext} {packets pushed : List Packet}
    {h₀ : OutHistory} {inBytes : Int32} (hout : Accounted h₀ pushed p.ctx.commands.out)
    (hlight : ∀ packet ∈ packets, ∃ header, packet.Light header)
    (hrespond : ∀ out, p.respond piece ⟨{ p.ctx.commands with out }, p.ctx.received⟩ =
      (out.pushAll packets).map fun out => (⟨{ ctx' with out }, p.ctx.received⟩, inBytes)) :
    ∃ out, p.respond piece p.ctx = .ok (⟨{ ctx' with out }, p.ctx.received⟩, inBytes) ∧
      Accounted h₀ (pushed ++ packets) out ∧
      pushedBy (fun commands => (p.respond piece { p.ctx with commands }).map (·.1.commands)) p.ctx.commands =
        packets := by
  have hsends : Sends (fun commands => (p.respond piece { p.ctx with commands }).map (·.1.commands)) p.ctx.commands
      packets ctx' := by
    intro out
    dsimp only
    rw [hrespond out]
    cases out.pushAll packets with
    | error e => rfl
    | ok out => rfl
  obtain ⟨out, hpush, hout'⟩ := pushAll_light hout packets hlight
  have hcall := hrespond p.ctx.commands.out
  rw [hpush, map_ok] at hcall
  exact ⟨out, hcall, hout', hsends.pushedBy⟩

/-- Any bytes that arrive are parsed and answered, and both sides stay in their scripts. -/
theorem Side.reads (hp : Side s p q n) (hq : Side s' q p m) (hs : s.Sound) (hs' : s'.Sound)
    (hmatch : s.exchanges.map Exchange.packet = s'.sent) (k : Nat) :
    ∃ p', p.parse (RtmpPair.arriving q.wire n k) = .ok p' ∧
      Side s p' q (n + (RtmpPair.arriving q.wire n k).length) ∧ Side s' q p' m := by
  obtain ⟨done', first, inn, buf, hread, hcompleted', hparse, hearly, hinbox⟩ :=
    hp.inbox.read (hq.sent_length hs') (hq.arriving_prefix n k)
  generalize RtmpPair.arriving q.wire n k = piece at hparse hearly hinbox
  obtain ⟨done, rest, hsplit, hcompleted, hpushed, hconverses⟩ := hp.talk
  obtain ⟨now, later, rfl, hreceived⟩ :=
    next_exchanges hcompleted hcompleted' (hsplit ▸ hmatch) (hread.trans hq.pushed_prefix)
  obtain ⟨ctx', hlater, hrun⟩ := hconverses.run now later
  rw [hreceived] at hrun
  have hsent : p.pushed ++ now.flatMap Exchange.replies <+: s.sent := by
    rw [hpushed, Script.sent, hsplit, List.flatMap_append, List.flatMap_append, ← List.append_assoc,
      ← List.append_assoc]
    exact List.prefix_append _ _
  have hlight : ∀ packet ∈ now.flatMap Exchange.replies, ∃ header, packet.Light header :=
    fun packet hmem =>
    (hs.brief packet (hsent.subset (List.mem_append_right _ hmem))).imp fun _ hp => hp.toLight
  obtain ⟨out, hcall, hout, hpushedBy⟩ := respond_pushes hp.out hlight
    (respond_row hconverses.ackSize hp.inbox.inBytes hp.inbox.lastLeft hearly hparse hrun)
  refine ⟨_, ?_, ⟨⟨done ++ now, later, ?_, ?_, ?_, hlater.withOut out⟩, ?_, hinbox ⟨{ ctx' with out }, p.ctx.received⟩
    (p.pushed ++ now.flatMap Exchange.replies)⟩, ⟨hq.talk, hq.out, ?_⟩⟩
  · unfold RtmpPeer.parse
    dsimp only
    rw [hcall, ok_bind, hparse, hpushedBy]
    rfl
  · rw [hsplit, List.append_assoc]
  · dsimp only
    rw [hcompleted, List.map_append, hreceived]
  · dsimp only
    rw [hpushed, List.flatMap_append, List.append_assoc]
  · exact hout
  · exact hq.inbox.pushAll hs _ hsent

end Sides

/-! ## The scripts are sound -/

namespace RtmpClient
variable {client : RtmpClient}

theorem connectCall_brief (hfit : client.Fits) :
    ∃ header, (connectCall client.onConnection.app client.onConnection.tcUrl).Brief header :=
  message_brief (by decide) (by decide) (Nat.zero_lt_succ _) hfit.connect_length (by decide)

theorem streamCall_brief (hfit : client.Fits) :
    ∃ header, (streamCall client.onConnection).Brief header := by
  refine message_brief (by decide) (by decide) ?_ hfit.stream_length (by decide)
  unfold streamArguments
  split
  · exact Nat.zero_lt_succ _
  · exact Nat.zero_lt_succ _

theorem createStreamCall_brief : ∃ header, createStreamCall.Brief header :=
  message_brief (by decide) (by decide) (by decide) (by decide) (by decide)

theorem script_sound (hfit : client.Fits) : client.script.Sound := by
  have hsent : client.script.sent = [setChunkSizeMessage, connectCall client.onConnection.app client.onConnection.tcUrl,
      createStreamCall, streamCall client.onConnection] := client.scripts_match.2.symm
  refine ⟨?_, ⟨[], _, hsent, fun packet hmem => absurd hmem List.not_mem_nil⟩, ?_⟩
  · rw [hsent]
    intro packet hmem
    simp only [List.mem_cons, List.not_mem_nil, or_false] at hmem
    rcases hmem with rfl | rfl | rfl | rfl
    · exact setChunkSizeMessage_brief
    · exact connectCall_brief hfit
    · exact createStreamCall_brief
    · exact streamCall_brief hfit
  · rw [hsent]
    exact Nat.le_of_lt (by decide : 4 < 8)

theorem streamReplies_brief (ctx : CommandContext) :
    ∀ packet ∈ streamReplies ctx, ∃ header, packet.Brief header := by
  unfold streamReplies
  intro packet hmem
  split at hmem
  · simp only [List.mem_cons, List.not_mem_nil, or_false] at hmem
    rcases hmem with rfl | rfl
    · exact message_brief (by decide) (by decide) (by decide) (by decide) (by decide)
    · exact message_brief (by decide) (by decide) (by decide) (by decide) (by decide)
  · obtain rfl := List.mem_singleton.mp hmem
    exact message_brief (by decide) (by decide) (by decide) (by decide) (by decide)

theorem createStreamMessage_brief (id : UInt64) :
    ∃ header, (createStreamMessage id).Brief header := by
  refine message_brief (by decide) (by decide) ?_ (createStreamResult_fits id) (by decide)
  simp only [createStreamResult, List.flatMap_cons, List.length_append, AMFArgument.encode,
    List.length_cons]
  omega

theorem serverScript_sound (client : RtmpClient) : client.serverScript.Sound := by
  have hword := writeUint32T_length (2500000 : Int32).toUInt32
  have hfive : (BytesWriter.writeUint32T (2500000 : Int32).toUInt32 ++ [0x02]).length = 5 := by
    rw [List.length_append, hword]
    rfl
  have hsent : client.serverScript.sent =
      [ackWindowsSizeMessage 2500000, setPeerBandwidthMessage 2500000] ++
      setChunkSizeMessage :: connectResultMessage false :: createStreamMessage (whole 4) ::
        streamReplies client.onConnection := by
    rw [← client.scripts_match.1]
    simp only [script, List.map_cons, List.map_map, Function.comp_def, List.map_id',
      List.cons_append, List.nil_append]
  refine ⟨?_, ⟨_, _, hsent, ?_⟩, ?_⟩
  · rw [hsent]
    intro packet hmem
    simp only [List.mem_append, List.mem_cons, List.not_mem_nil, or_false] at hmem
    rcases hmem with (rfl | rfl) | rfl | hresult | hresult | hmem
    · exact message_brief (by decide) (by decide) (by rw [hword]; decide) (by rw [hword]; decide) (by decide)
    · exact message_brief (by decide) (by decide) (by rw [hfive]; decide) (by rw [hfive]; decide) (by decide)
    · exact setChunkSizeMessage_brief
    · rw [hresult, connectResultMessage_eq]
      exact message_brief (by decide) (by decide) (by decide +kernel) (by decide +kernel) (by decide)
    · rw [hresult]
      exact createStreamMessage_brief (whole 4)
    · exact streamReplies_brief _ packet hmem
  · intro packet hmem
    simp only [List.mem_cons, List.not_mem_nil, or_false] at hmem
    rcases hmem with rfl | rfl
    · exact Nat.le_trans (Nat.le_of_eq hword) (by decide)
    · exact Nat.le_trans (Nat.le_of_eq hfive) (by decide)
  · have hlast : (streamReplies client.onConnection).length ≤ 2 := by
      unfold streamReplies
      split
      · exact Nat.le_refl 2
      · exact Nat.le_succ 1
    rw [hsent]
    simp only [List.length_append, List.length_cons, List.length_nil]
    omega

end RtmpClient

/-! ## Runs -/

section Runs
variable [Host] {client : RtmpClient}

/-- Both sides are on their ways. -/
structure InDialogue (client : RtmpClient) (pair : RtmpPair) : Prop where
  clientSide : Side client.script pair.client pair.server pair.toClient
  serverSide : Side client.serverScript pair.server pair.client pair.toServer

theorem start_inDialogue (hfit : client.Fits) (server : RtmpServer) :
    ∃ pair, RtmpPair.start client server = .ok pair ∧ InDialogue client pair := by
  have hsends := client.sendConnect_sends hfit
  have hclient := client.script_sound hfit
  have hsent : client.script.opening <+: client.script.sent := List.prefix_append _ _
  have hidle : ({} : RtmpOut).Idle := ⟨rfl, rfl, rfl, rfl, rfl⟩
  have hfresh : Accounted freshHistory [] client.onConnection.out := by
    rw [RtmpClient.onConnection_out]
    exact accounted_idle hidle
  obtain ⟨out, hcall, hout⟩ := hsends.accounted (fun packet hmem =>
    (hclient.brief packet (hsent.subset hmem)).imp fun _ hp => hp.toLight) hfresh
  have hinbox : Inbox client.script.opening 0 { ctx := server.onNewConnection.ctx } :=
    (inbox_nil _ []).pushAll hclient client.script.opening hsent
  refine ⟨{ client := { ctx := { commands := { client.onConnection with out } }, pushed := client.script.opening }
            server := { ctx := server.onNewConnection.ctx } }, ?_, ?_, ?_⟩
  · unfold RtmpPair.start RtmpClient.enter
    rw [hcall, ok_bind, hsends.pushedBy]
    rfl
  · exact ⟨⟨[], client.script.exchanges, rfl, rfl, (List.append_nil _).symm, hfit.client_converses.withOut out⟩, hout,
      inbox_nil _ _⟩
  · exact ⟨⟨[], client.serverScript.exchanges, rfl, rfl, rfl, hfit.server_converses server⟩,
      accounted_idle hidle, hinbox⟩

theorem step_inDialogue (hfit : client.Fits) {pair : RtmpPair} (h : InDialogue client pair)
    (e : PairStep) : ∃ pair', pair.step e = .ok pair' ∧ InDialogue client pair' := by
  have hclient := client.script_sound hfit
  have hserver := client.serverScript_sound
  cases e with
  | clientWrites turn =>
      obtain ⟨p, hp, hside, hother⟩ := h.clientSide.writes h.serverSide hclient turn
      exact ⟨_, by rw [RtmpPair.step, hp]; rfl, hside, hother⟩
  | serverWrites turn =>
      obtain ⟨p, hp, hside, hother⟩ := h.serverSide.writes h.clientSide hserver turn
      exact ⟨_, by rw [RtmpPair.step, hp]; rfl, hother, hside⟩
  | clientReads n =>
      obtain ⟨p, hp, hside, hother⟩ := h.clientSide.reads h.serverSide hclient hserver client.scripts_match.1 n
      exact ⟨_, by rw [RtmpPair.step, hp]; rfl, hside, hother⟩
  | serverReads n =>
      obtain ⟨p, hp, hside, hother⟩ := h.serverSide.reads h.clientSide hserver hclient client.scripts_match.2 n
      exact ⟨_, by rw [RtmpPair.step, hp]; rfl, hother, hside⟩

theorem run_inDialogue (hfit : client.Fits) (steps : List PairStep) {pair : RtmpPair}
    (h : InDialogue client pair) :
    ∃ pair', pair.run steps = .ok pair' ∧ InDialogue client pair' := by
  unfold RtmpPair.run
  induction steps generalizing pair with
  | nil => exact ⟨pair, rfl, h⟩
  | cons e steps ih =>
      obtain ⟨pair₁, hstep, h₁⟩ := step_inDialogue hfit h e
      obtain ⟨pair₂, hrun, h₂⟩ := ih h₁
      exact ⟨pair₂, by rw [List.foldlM_cons, hstep, ok_bind, hrun], h₂⟩

/-- No message of a sound script is cut. -/
theorem Side.agree {s s' : Script} {p q : RtmpPeer} {n m : Nat} (hp : Side s p q n)
    (hq : Side s' q p m) (hs' : s'.Sound) : ChunksAgree q p := by
  obtain ⟨done, todo, fin, hsplit, hcompleted, hbodies, -⟩ := hp.inbox.row
  have hwhole : ∀ packet ∈ q.pushed, bodyLengths packet.data.length =
      [(packet.data.length : Int)] := by
    intro packet hmem
    obtain ⟨header, hpacket⟩ := hs'.brief packet (hq.pushed_prefix.subset hmem)
    exact bodyLengths_short (Nat.le_trans hpacket.size (by decide))
  have hlengths : q.pushed.flatMap (fun packet => bodyLengths packet.data.length) =
      q.pushed.map fun packet => (packet.data.length : Int) := by
    rw [List.map_eq_flatMap]
    exact List.flatMap_congr hwhole
  refine ⟨?_, fun packet hmem header hext t t' sent hroom hbuild => ?_, ?_⟩
  · rw [hlengths, hbodies, hsplit, List.map_append]
    exact List.prefix_append _ _
  · obtain ⟨header', hpacket⟩ := hs'.brief packet (hq.pushed_prefix.subset hmem)
    obtain rfl := Option.some.inj (hext.symm.trans hpacket.ext)
    have hmax : header.msgLen.toNat < 2 ^ 31 := by
      rw [hpacket.len]
      exact Nat.lt_of_le_of_lt hpacket.size (by decide)
    rw [RtmpOut.buildChunk_lengths hext hmax hroom hbuild, hpacket.len]
  · rw [hcompleted, hsplit, List.map_append]
    exact List.prefix_append _ _

/-- Chunk size agreement, in every run of a client whose URL fits and a server. -/
theorem chunkSizes_agree (client : RtmpClient) (server : RtmpServer) (hfit : client.Fits)
    (steps : List PairStep) : ∃ pair, (RtmpPair.start client server >>= (·.run steps)) = .ok pair ∧
      ChunksAgree pair.client pair.server ∧ ChunksAgree pair.server pair.client := by
  obtain ⟨pair₀, hstart, h₀⟩ := start_inDialogue hfit server
  obtain ⟨pair, hrun, h⟩ := run_inDialogue hfit steps h₀
  refine ⟨pair, ?_, h.serverSide.agree h.clientSide (client.script_sound hfit),
    h.clientSide.agree h.serverSide client.serverScript_sound⟩
  rw [hstart, ok_bind, hrun]

end Runs

theorem chunkSizes_agree_play :
    ∃ pair, (RtmpPair.start { isPlayer := true, url := text "rtmp://a/live/b" } {} >>=
        (@RtmpPair.run ⟨fun _ => 0⟩ · [.clientWrites ⟨[.accepted 100, .again], by decide⟩, .serverReads 50,
          .serverReads 150, .serverWrites ⟨[.accepted 9], by decide⟩, .clientReads 4])) = .ok pair ∧
      ChunksAgree pair.client pair.server ∧ ChunksAgree pair.server pair.client :=
  @chunkSizes_agree ⟨fun _ => 0⟩ { isPlayer := true, url := text "rtmp://a/live/b" } {}
    ⟨⟨_, newMessage_fits (by decide +kernel)⟩, ⟨_, newMessage_fits (by decide +kernel)⟩⟩ _

end TmmsServer
