import TmmsServer.Net.TcpConnection
import TmmsServer.Rtmp.ChunkEncoding

/-!
# The output queue

`PushOutQueue`, `Send` and `CheckAndSend` of a context in `kRtmpMessage`, over the
connection they feed. The vectors of the connection are addresses into the
context; what the socket accepts are the bytes found there when it is written.
-/
namespace TmmsServer
open Lib.Gather

instance : Pointer Addr where
  advance
    | .outBuffer off, n => .outBuffer (off + n)
    | .packet slot off, n => .packet slot (off + n)

def BufferNode.region (node : BufferNode) : Region Addr := ⟨node.addr, node.size⟩

namespace RtmpOut

def regionBytes (s : RtmpOut) (v : Region Addr) : Checked (List UInt8) :=
  s.nodeBytes ⟨v.base, v.len⟩

/-- The loop of `Send`: at most `n` packets go from the queue to `sending_bufs_`. -/
def sendLoop : Nat → RtmpOut → Checked RtmpOut
  | 0, s => .ok s
  | n + 1, s =>
      match s.outWaitingQueue with
      | [] => .ok s
      | packet :: queue => do
          let (s, _) ← { s with outWaitingQueue := queue }.buildChunk packet 0 false
          sendLoop n s

end RtmpOut

/-- The context and its connection, with the bytes the socket accepted so far and, for each reset of
the buffers, what `io_vec_list_` was then. -/
structure Outbound where
  ctx : RtmpOut := {}
  conn : TcpConnection Addr := {}
  wire : List UInt8 := []
  cleared : List (List (Region Addr)) := []

inductive OutEvent where
  | push (packet : Packet)
  | onWrite (results : List WriteResult)

namespace Outbound

/-- `Send`. -/
def send (o : Outbound) : Checked Outbound :=
  if o.ctx.sending then .ok o
  else do
    let ctx ← RtmpOut.sendLoop 10 { o.ctx with sending := true }
    return { o with ctx, conn := o.conn.sendListInLoop (ctx.sendingBufs.map BufferNode.region) }

/-- `CheckAndSend`; the handler's `OnActive` comes last, so what it pushes is the next event. -/
def checkAndSend (o : Outbound) : Checked Outbound :=
  let o := { o with ctx := o.ctx.reset, cleared := o.conn.ioVecList :: o.cleared }
  if o.ctx.outWaitingQueue.isEmpty then .ok o else o.send

def pushOutQueue (o : Outbound) (packet : Packet) : Checked Outbound :=
  { o with ctx := { o.ctx with outWaitingQueue := o.ctx.outWaitingQueue ++ [packet] } }.send

/-- `OnWrite`, and `OnWriteComplete` where the connection calls it. -/
def onWrite (o : Outbound) (results : List WriteResult) : Checked Outbound := do
  let w := o.conn.onWrite results
  let bytes ← w.accepted.mapM o.ctx.regionBytes
  let o := { o with conn := w.conn, wire := o.wire ++ bytes.flatten }
  if w.complete then o.checkAndSend else return o

def step (o : Outbound) : OutEvent → Checked Outbound
  | .push packet => o.pushOutQueue packet
  | .onWrite results => o.onWrite results

def run (o : Outbound) : List OutEvent → Checked Outbound
  | [] => .ok o
  | e :: events => do
      let o ← o.step e
      run o events

end Outbound

/-- What the sender remembers of every chunk stream. -/
abbrev OutHistory := UInt32 → OutStream

namespace OutHistory

/-- The encoding of a queued packet, the bytes of `out_buffer_` it needs, and what is remembered after it. -/
def encode (h : OutHistory) (packet : Packet) : List UInt8 :=
  match packet.ext with
  | none => []
  | some header => (h header.csId).encode header packet.data 0 false

def need (h : OutHistory) (packet : Packet) : Nat :=
  match packet.ext with
  | none => 0
  | some header => (h header.csId).headerNeed header 0 false

def next (h : OutHistory) (packet : Packet) : OutHistory :=
  match packet.ext with
  | none => h
  | some header => Function.update h header.csId ((h header.csId).after header 0 false)

def encodeAll (h : OutHistory) : List Packet → List UInt8
  | [] => []
  | packet :: packets => h.encode packet ++ (h.next packet).encodeAll packets

def needAll (h : OutHistory) : List Packet → Nat
  | [] => 0
  | packet :: packets => h.need packet + (h.next packet).needAll packets

def nextAll (h : OutHistory) (packets : List Packet) : OutHistory := packets.foldl next h

theorem encodeAll_append (h : OutHistory) (ps qs : List Packet) :
    h.encodeAll (ps ++ qs) = h.encodeAll ps ++ (h.nextAll ps).encodeAll qs := by
  induction ps generalizing h with
  | nil => rfl
  | cons p ps ih =>
      change h.encode p ++ (h.next p).encodeAll (ps ++ qs) = _
      rw [ih, ← List.append_assoc]
      rfl

theorem nextAll_append (h : OutHistory) (ps qs : List Packet) :
    h.nextAll (ps ++ qs) = (h.nextAll ps).nextAll qs := List.foldl_append

end OutHistory

/-- A packet whose header gives its size. -/
structure Packet.Ready (packet : Packet) (header : RtmpMsgHeader) : Prop where
  ext : packet.ext = some header
  len : header.msgLen.toNat = packet.data.length
  pos : 0 < packet.data.length

/-- The headers of the packets that `Send` takes now fit `out_buffer_`. -/
def OutEvent.BatchFits (o : Outbound) : OutEvent → Prop
  | .push packet => o.ctx.sending = false →
      OutHistory.needAll o.ctx.stream ((o.ctx.outWaitingQueue ++ [packet]).take 10) ≤ 4096
  | .onWrite results => (o.conn.onWrite results).complete = true →
      OutHistory.needAll o.ctx.stream (o.ctx.outWaitingQueue.take 10) ≤ 4096

/-- Each batch of a run fits. -/
def BatchesFit : Outbound → List OutEvent → Prop
  | _, [] => True
  | o, e :: events => e.BatchFits o ∧ ∀ o', o.step e = .ok o' → BatchesFit o' events

/-- The call meets no error but those that ask to come back. -/
def OutEvent.Soft : OutEvent → Prop
  | .push _ => True
  | .onWrite results => .failed ∉ results

instance : DecidablePred OutEvent.Soft
  | .push _ => .isTrue trivial
  | .onWrite results => inferInstanceAs (Decidable (.failed ∉ results))

def OutEvent.pushed : OutEvent → List Packet
  | .push packet => [packet]
  | .onWrite _ => []

namespace RtmpOut

/-- Nothing is queued, built or being sent. -/
structure Idle (s : RtmpOut) : Prop where
  sending : s.sending = false
  queue : s.outWaitingQueue = []
  current : s.outCurrent = 0
  bufs : s.sendingBufs = []
  packets : s.outSendingPackets = []

/-- Where the context has the bytes of a vector. -/
def At (s : RtmpOut) (v : Region Addr) (bs : List UInt8) : Prop := s.regionBytes v = .ok bs

theorem readBytes_parts {data bs : List UInt8} {off n m : Nat} (h : readBytes data off n = .ok bs)
    (hm : m ≤ n) : bs.length = n ∧ readBytes data off m = .ok (bs.take m) ∧
      readBytes data (off + m) (n - m) = .ok (bs.drop m) := by
  obtain ⟨hle, rfl⟩ := readBytes_ok h
  refine ⟨?_, ?_, ?_⟩
  · rw [List.length_take, List.length_drop]
    omega
  · rw [readBytes_of_le (by omega), List.take_take, Nat.min_eq_left hm]
  · rw [readBytes_of_le (by omega), List.drop_take, List.drop_drop]

theorem at_parts {s : RtmpOut} {v : Region Addr} {bs : List UInt8} {m : Nat} (h : s.At v bs)
    (hm : m ≤ v.len) : bs.length = v.len ∧ s.At ⟨v.base, m⟩ (bs.take m) ∧
      s.At ⟨Pointer.advance v.base m, v.len - m⟩ (bs.drop m) := by
  obtain ⟨base, len⟩ := v
  cases base with
  | outBuffer off => exact readBytes_parts h hm
  | packet slot off =>
      unfold At regionBytes at h ⊢
      change _ ∧ _ ∧ s.nodeBytes ⟨.packet slot (off + m), len - m⟩ = _
      simp only [nodeBytes_packet] at h ⊢
      cases hs : s.outSendingPackets[slot]? with
      | none => rw [hs] at h; exact absurd h nofun
      | some packet =>
          rw [hs] at h
          exact readBytes_parts h hm

theorem at_holding (s : RtmpOut) : Holding s.At where
  length h := (at_parts h (Nat.zero_le _)).1
  front h hn := (at_parts h hn).2.1
  back h hn := (at_parts h hn).2.2

theorem mapM_of_spells {s : RtmpOut} {vs : List (Region Addr)} {w : List UInt8}
    (h : Spells s.At vs w) : ∃ pieces, vs.mapM s.regionBytes = .ok pieces ∧ pieces.flatten = w := by
  obtain ⟨pieces, hp, rfl⟩ := h
  refine ⟨pieces, ?_, rfl⟩
  induction hp with
  | nil => rfl
  | cons hv _ ih => rw [List.mapM_cons, hv, ih]; rfl

theorem Lays.spells {s : RtmpOut} {w : List UInt8} (h : s.Lays w) :
    Spells s.At (s.sendingBufs.map BufferNode.region) w := by
  obtain ⟨pieces, hp, hw⟩ := h
  exact ⟨pieces, List.forall₂_map_left_iff.mpr (hp.imp fun _ _ hnode => hnode.1), hw⟩

end RtmpOut
end TmmsServer
