import TmmsServer.Lib.Feed
import TmmsServer.Mmedia.Packet

/-!
# The chunk parser

`RtmpContext::ParseMessage` on the receiving half of the context. Completed
messages are observed as output; of their handlers only `HandleChunkSize` feeds
back into parsing. A pass that finds too few bytes returns with what it has
already written to the maps.
-/
namespace TmmsServer
open Lib.Words Lib.Feed BytesReader

structure BasicHeader where
  fmt : RtmpFmt
  csId : UInt32
  parsed : Nat
  deriving DecidableEq, Repr

/-- One to three bytes; `none` is the early return for lack of bytes. -/
def basicHeader (pos : List UInt8) (totalBytes : Nat) : Checked (Option BasicHeader) := do
  let b ← readUint8T pos 0
  let fmt := RtmpFmt.ofCode (b.toNat >>> 6 &&& 3)
  let csid := b.toNat &&& 0x3F
  if csid = 0 then
    if totalBytes < 2 then return none
    else
      let b₁ ← readUint8T pos 1
      return some ⟨fmt, UInt32.ofNat (64 + b₁.toNat), 2⟩
  else if csid = 1 then
    if totalBytes < 3 then return none
    else
      let b₁ ← readUint8T pos 1
      let b₂ ← readUint8T pos 2
      return some ⟨fmt, UInt32.ofNat (64 + b₁.toNat + b₂.toNat * 256), 3⟩
  else
    return some ⟨fmt, UInt32.ofNat csid, 1⟩

/-- What the four maps hold for one chunk stream. -/
structure InStream where
  header : Option RtmpMsgHeader := none
  packet : Option Packet := none
  delta : UInt32 := 0
  ext : Bool := false

/-- The receiving half of `RtmpContext`. -/
structure RtmpIn where
  inMessageHeaders : UInt32 → Option RtmpMsgHeader := fun _ => none
  inPackets : UInt32 → Option Packet := fun _ => none
  inDeltas : UInt32 → UInt32 := fun _ => 0
  inExt : UInt32 → Bool := fun _ => false
  inChunkSize : Int32 := 128

namespace RtmpIn

def stream (s : RtmpIn) (csid : UInt32) : InStream :=
  ⟨s.inMessageHeaders csid, s.inPackets csid, s.inDeltas csid, s.inExt csid⟩

def setStream (s : RtmpIn) (csid : UInt32) (t : InStream) : RtmpIn :=
  { s with
    inMessageHeaders := Function.update s.inMessageHeaders csid t.header
    inPackets := Function.update s.inPackets csid t.packet
    inDeltas := Function.update s.inDeltas csid t.delta
    inExt := Function.update s.inExt csid t.ext }

@[simp] theorem stream_setStream (s : RtmpIn) (csid : UInt32) (t : InStream) :
    (s.setStream csid t).stream csid = t := by
  simp [stream, setStream]

theorem stream_setStream_ne (s : RtmpIn) {csid c : UInt32} (t : InStream) (h : c ≠ csid) :
    (s.setStream csid t).stream c = s.stream c := by
  simp [stream, setStream, h]

@[simp] theorem setStream_setStream (s : RtmpIn) (csid : UInt32) (t t' : InStream) :
    (s.setStream csid t).setStream csid t' = s.setStream csid t' := by
  simp [setStream]

@[simp] theorem setStream_inChunkSize (s : RtmpIn) (csid : UInt32) (t : InStream) :
    (s.setStream csid t).inChunkSize = s.inChunkSize := rfl

/-- `HandleChunkSize`: a short body is logged and ignored. -/
def handleChunkSize (s : RtmpIn) (packet : Packet) : RtmpIn :=
  if 4 ≤ packet.packetSize then
    { s with inChunkSize := (UInt32.ofNat (beValue (packet.data.take 4))).toInt32 }
  else s

/-- The part of `MessageComplete` that feeds back into parsing. -/
def messageComplete (s : RtmpIn) (packet : Packet) : RtmpIn :=
  if packet.type = kRtmpMsgTypeChunkSize.toNat then s.handleChunkSize packet else s

end RtmpIn

/-- What one pass does to its stream: wait for more bytes, or store one chunk. -/
inductive StreamPass where
  | more (t : InStream)
  | chunk (t : InStream) (parsed : Nat) (done : Option Packet)

/-- `in_message_headers_[csid]` and `in_packets_[csid]`, made where they are missing. -/
def openPacket (t : InStream) (fmt : RtmpFmt) (csid : UInt32) (inChunkSize : Int32)
    (p : List UInt8) : Checked (RtmpMsgHeader × Packet) := do
  let prev := t.header.getD {}
  let msgLen ←
    if fmt = .fmt0 ∨ fmt = .fmt1 then readUint24T p 3
    else pure (if prev.msgLen = 0 then inChunkSize.toUInt32 else prev.msgLen)
  match t.packet with
  | some packet => return (prev, packet)
  | none =>
      let packet ← Packet.newPacket (int32 msgLen.toNat)
      return (prev, packet.setExt { csId := csid, msgLen })

/-- The message header of a chunk: the timestamp field, the header and delta made from it, its size. -/
structure MessageHeader where
  ts : UInt32
  header : RtmpMsgHeader
  delta : UInt32
  parsed : Nat

def messageHeader (fmt : RtmpFmt) (prev header : RtmpMsgHeader) (delta : UInt32) (p : List UInt8) :
    Checked MessageHeader :=
  match fmt with
  | .fmt0 => do
      let ts ← readUint24T p 0
      let msgLen ← readUint24T p 3
      let msgType ← readUint8T p 6
      let msgSid ← copyUint32 p 7
      return ⟨ts, { header with timestamp := ts, msgLen, msgType, msgSid }, 0, 11⟩
  | .fmt1 => do
      let ts ← readUint24T p 0
      let msgLen ← readUint24T p 3
      let msgType ← readUint8T p 6
      let timestamp := ts + prev.timestamp
      return ⟨ts, { header with timestamp, msgLen, msgType, msgSid := prev.msgSid }, ts, 7⟩
  | .fmt2 => do
      let ts ← readUint24T p 0
      let timestamp := ts + prev.timestamp
      return ⟨ts, { prev with csId := header.csId, timestamp }, ts, 3⟩
  | .fmt3 =>
      let timestamp := if header.timestamp = 0 then delta + prev.timestamp else header.timestamp
      return ⟨0, { prev with csId := header.csId, timestamp }, delta, 0⟩

/-- The header phase of a pass: too few bytes for the extended timestamp, or ready for the body. -/
inductive HeaderPass where
  | short (header : RtmpMsgHeader) (delta : UInt32) (ext : Bool)
  | ready (header : RtmpMsgHeader) (delta : UInt32) (ext : Bool) (parsed : Nat)

def streamHeader (fmt : RtmpFmt) (prev header : RtmpMsgHeader) (delta : UInt32) (ext : Bool)
    (p : List UInt8) (avail : Nat) : Checked HeaderPass := do
  let m ← messageHeader fmt prev header delta p
  let ext := if fmt = .fmt3 then ext else m.ts == 0xFFFFFF
  if ext then
    if uint32 (avail - m.parsed) < 4 then return .short m.header m.delta ext
    else
      let ts ← readUint32T p m.parsed
      if fmt = .fmt0 then
        -- the extended timestamp is read over and not used
        return .ready m.header m.delta ext (m.parsed + 4)
      else
        return .ready { m.header with timestamp := ts + prev.timestamp } ts ext (m.parsed + 4)
  else return .ready m.header m.delta ext m.parsed

/-- Store the body bytes of a chunk; a full packet is completed and leaves its map. -/
def storeBody (t : InStream) (header : RtmpMsgHeader) (packet : Packet) (body : List UInt8)
    (parsed : Nat) : Checked StreamPass := do
  let packet ← packet.store body
  if packet.space = 0 then
    let done := { packet with type := header.msgType.toNat, timestamp := header.timestamp.toUInt64 }
    return .chunk { t with header := some header, packet := none } (parsed + body.length) (some done)
  else
    return .chunk { t with header := some header, packet := some packet } (parsed + body.length) none

def copyBody (t : InStream) (header : RtmpMsgHeader) (packet : Packet) (inChunkSize : Int32)
    (p : List UInt8) (avail parsed : Nat) : Checked StreamPass :=
  let bytes := min packet.space inChunkSize.toInt
  if uint32 (avail - parsed) < uint32 bytes then .ok (.more t)
  else if bytes < 0 then
    -- a negative size would reach `memcpy`
    .error .outOfBounds
  else do
    let body ← readBytes p parsed bytes.toNat
    storeBody t header packet body parsed

def bodyPass (prev : RtmpMsgHeader) (packet : Packet) (inChunkSize : Int32) (p : List UInt8)
    (avail : Nat) : HeaderPass → Checked StreamPass
  | .short header delta ext => .ok (.more ⟨some prev, some (packet.setExt header), delta, ext⟩)
  | .ready header delta ext parsed =>
      let packet := packet.setExt header
      copyBody ⟨some prev, some packet, delta, ext⟩ header packet inChunkSize p avail parsed

/-- A pass behind the basic header; `avail` bytes are left there, those of `p`. -/
def parseStream (t : InStream) (fmt : RtmpFmt) (csid : UInt32) (inChunkSize : Int32)
    (p : List UInt8) (avail : Nat) : Checked StreamPass := do
  let (prev, packet) ← openPacket t fmt csid inChunkSize p
  match packet.ext with
  | none => throw .nullDeref
  | some header =>
      let pass ← streamHeader fmt prev header t.delta t.ext p avail
      bodyPass prev packet inChunkSize p avail pass

/-- One pass of the loop of `ParseMessage`. -/
def parseChunk (s : RtmpIn) (pos : List UInt8) (totalBytes : Nat) :
    Attempt RtmpIn Packet Fault :=
  match basicHeader pos totalBytes with
  | .error e => .fail e
  | .ok none => .wait s
  | .ok (some b) =>
    let size := int32 (totalBytes - b.parsed)
    if size = 0 ∨ (b.fmt = .fmt0 ∧ size < 11) ∨ (b.fmt = .fmt1 ∧ size < 7) ∨ (b.fmt = .fmt2 ∧ size < 3) then
      .wait s
    else
      match parseStream (s.stream b.csId) b.fmt b.csId s.inChunkSize (pos.drop b.parsed)
          (uint32 (totalBytes - b.parsed)) with
      | .error e => .fail e
      | .ok (.more t) => .wait (s.setStream b.csId t)
      | .ok (.chunk t parsed none) => .take (s.setStream b.csId t) (b.parsed + parsed) []
      | .ok (.chunk t parsed (some packet)) =>
          .take ((s.setStream b.csId t).messageComplete packet) (b.parsed + parsed) [packet]

/-- The loop of `ParseMessage`; every pass that goes on takes at least one byte. -/
def parseLoop : Nat → RtmpIn → List UInt8 → Nat → Reading RtmpIn UInt8 Packet Fault
  | 0, s, buf, _ => ⟨[], .ok (s, buf)⟩
  | fuel + 1, s, buf, totalBytes =>
      if 1 < totalBytes then
        match parseChunk s buf totalBytes with
        | .wait s' => ⟨[], .ok (s', buf)⟩
        | .fail e => ⟨[], .error e⟩
        | .take s' parsed out =>
            (parseLoop fuel s' (buf.drop parsed) (uint32 (totalBytes - parsed))).prepend out
      else ⟨[], .ok (s, buf)⟩

/-- `ParseMessage` on the readable bytes `buf`. -/
def parseMessage (s : RtmpIn) (buf : List UInt8) : Reading RtmpIn UInt8 Packet Fault :=
  parseLoop (buf.length + 1) s buf (uint32 buf.length)

end TmmsServer
