import TmmsServer.Mmedia.Packet

/-!
# The chunk builder

`RtmpContext::BuildChunk` on the sending half of the context. The headers of a
batch are laid one behind the other into `out_buffer_`; the bodies stay in their
packets. What is handed to the connection are addresses, so a buffer node means
whatever the memory it points to holds when it is read.
-/
namespace TmmsServer
open Lib.Words

/-- `out_buffer_`, an array of 4096 bytes. -/
structure OutBuffer where
  bytes : List UInt8
  size_eq : bytes.length = 4096

namespace OutBuffer

def blank : OutBuffer := ⟨List.replicate 4096 0, List.length_replicate⟩

/-- Lay `bs` down at offset `off`; writing past the end of the array is a fault. -/
def write (b : OutBuffer) (off : Nat) (bs : List UInt8) : Checked OutBuffer :=
  if h : off + bs.length ≤ 4096 then
    .ok ⟨b.bytes.take off ++ (bs ++ b.bytes.drop (off + bs.length)), by
      simp only [List.length_append, List.length_take, List.length_drop, b.size_eq]
      omega⟩
  else .error .outOfBounds

end OutBuffer

/-- Where a buffer node points: into `out_buffer_`, or into the body of the packet that
`out_sending_packets_` keeps alive in place `slot`. -/
inductive Addr where
  | outBuffer (off : Nat)
  | packet (slot off : Nat)
  deriving DecidableEq, Repr

structure BufferNode where
  addr : Addr
  size : Nat
  deriving DecidableEq, Repr

/-- The sending half of `RtmpContext`. -/
structure RtmpOut where
  outBuffer : OutBuffer := .blank
  outCurrent : Nat := 0
  outDeltas : UInt32 → UInt32 := fun _ => 0
  outMessageHeaders : UInt32 → Option RtmpMsgHeader := fun _ => none
  outWaitingQueue : List Packet := []
  sendingBufs : List BufferNode := []
  outSendingPackets : List Packet := []
  sending : Bool := false

/-- `out_chunk_size_`, set at construction and nowhere else. -/
def outChunkSize : Int := 4096

/-- A basic header; the third form stores its number in host order. -/
def basicHeaderBytes (fmt : RtmpFmt) (csId : UInt32) : List UInt8 :=
  if csId < 64 then [UInt8.ofNat (fmt.code <<< 6 ||| csId.toNat)]
  else if csId < 64 + 256 then [UInt8.ofNat (fmt.code <<< 6 ||| 0), (csId - 64).toUInt8]
  else UInt8.ofNat (fmt.code <<< 6 ||| 1) :: BytesWriter.copyUint16 (csId - 64).toUInt16

/-- The fields behind the basic header. -/
def headerFields (fmt : RtmpFmt) (ts : UInt32) (header : RtmpMsgHeader) : List UInt8 :=
  match fmt with
  | .fmt0 => BytesWriter.writeUint24T ts ++ (BytesWriter.writeUint24T header.msgLen ++
      (BytesWriter.writeUint8T header.msgType ++ BytesWriter.copyUint32 header.msgSid))
  | .fmt1 => BytesWriter.writeUint24T ts ++ (BytesWriter.writeUint24T header.msgLen ++
      BytesWriter.writeUint8T header.msgType)
  | .fmt2 => BytesWriter.writeUint24T ts
  | .fmt3 => []

/-- The 24-bit timestamp field. -/
def timestampField (timestamp : UInt32) : UInt32 :=
  if 0xFFFFFF ≤ timestamp then 0xFFFFFF else timestamp

/-- Four more bytes, in host order, where the field is full. -/
def extendedTimestamp (timestamp : UInt32) : List UInt8 :=
  if timestampField timestamp = 0xFFFFFF then BytesWriter.copyUint32 timestamp else []

/-- The header of a continuation chunk. -/
def nextHeader (csId timestamp : UInt32) : List UInt8 :=
  basicHeaderBytes .fmt3 csId ++ extendedTimestamp timestamp

/-- What `out_message_headers_` and `out_deltas_` hold for one chunk stream. -/
structure OutStream where
  header : Option RtmpMsgHeader := none
  delta : UInt32 := 0
  deriving DecidableEq

/-- The format of a message and the timestamp written for it. -/
structure FmtChoice where
  fmt : RtmpFmt
  timestamp : UInt32
  deriving DecidableEq

def firstHeader (c : FmtChoice) (header : RtmpMsgHeader) : List UInt8 :=
  basicHeaderBytes c.fmt header.csId ++
    (headerFields c.fmt (timestampField c.timestamp) header ++ extendedTimestamp c.timestamp)

namespace OutStream

/-- The timestamp is a difference to the previous header of the stream unless the format is 0. -/
def choose (o : OutStream) (header : RtmpMsgHeader) (timestamp : UInt32) (fmt0 : Bool) : FmtChoice :=
  match o.header with
  | none => ⟨.fmt0, timestamp⟩
  | some prev =>
      if fmt0 = false ∧ prev.timestamp ≤ timestamp ∧ header.msgSid = prev.msgSid then
        let delta := timestamp - prev.timestamp
        if header.msgLen = prev.msgLen ∧ header.msgType = prev.msgType then
          if delta = o.delta then ⟨.fmt3, delta⟩ else ⟨.fmt2, delta⟩
        else ⟨.fmt1, delta⟩
      else ⟨.fmt0, timestamp⟩

/-- The maps after the first header of a message was written. -/
def record (o : OutStream) (header : RtmpMsgHeader) (c : FmtChoice) : OutStream where
  header := some { header with
    timestamp := if c.fmt = .fmt0 then c.timestamp else (o.header.getD {}).timestamp + c.timestamp }
  delta := match c.fmt with
    | .fmt0 => 0
    | .fmt1 | .fmt2 => c.timestamp
    | .fmt3 => o.delta

end OutStream

namespace RtmpOut

def stream (s : RtmpOut) (csid : UInt32) : OutStream := ⟨s.outMessageHeaders csid, s.outDeltas csid⟩

def setStream (s : RtmpOut) (csid : UInt32) (o : OutStream) : RtmpOut :=
  { s with
    outMessageHeaders := Function.update s.outMessageHeaders csid o.header
    outDeltas := Function.update s.outDeltas csid o.delta }

@[simp] theorem stream_setStream (s : RtmpOut) (csid : UInt32) (o : OutStream) :
    (s.setStream csid o).stream csid = o := by
  simp [stream, setStream]

theorem stream_setStream_ne (s : RtmpOut) {csid c : UInt32} (o : OutStream) (h : c ≠ csid) :
    (s.setStream csid o).stream c = s.stream c := by
  simp [stream, setStream, h]

/-- Write a chunk header at `out_current_`, make a node of it and move on behind it. -/
def putHeader (s : RtmpOut) (bs : List UInt8) : Checked RtmpOut := do
  let outBuffer ← s.outBuffer.write s.outCurrent bs
  return { s with
    outBuffer
    outCurrent := s.outCurrent + bs.length
    sendingBufs := s.sendingBufs ++ [⟨.outBuffer s.outCurrent, bs.length⟩] }

def putBody (s : RtmpOut) (slot off size : Nat) : RtmpOut :=
  { s with sendingBufs := s.sendingBufs ++ [⟨.packet slot off, size⟩] }

/-- The loop of `BuildChunk` over the body; `next` is the header of a continuation chunk. -/
def bodyLoop (slot : Nat) (msgLen : UInt32) (next : List UInt8) :
    Nat → RtmpOut → Int → Checked RtmpOut
  | 0, s, _ => .ok s
  | fuel + 1, s, bytesParsed =>
      let size := min (int32 (msgLen.toNat - bytesParsed)) outChunkSize
      let s := s.putBody slot bytesParsed.toNat (size % 2 ^ 64).toNat
      let bytesParsed := int32 (bytesParsed + size)
      if uint32 bytesParsed < msgLen.toNat then
        -- no room in `out_buffer_`: logged, and the rest of the body is dropped
        if 4096 ≤ s.outCurrent then .ok s
        else do
          let s ← s.putHeader next
          bodyLoop slot msgLen next fuel s bytesParsed
      else .ok s

/-- The part the two overloads of `BuildChunk` share. -/
def chunkMessage (s : RtmpOut) (slot : Nat) (header : RtmpMsgHeader) (timestamp : UInt32)
    (fmt0 : Bool) : Checked RtmpOut := do
  let o := s.stream header.csId
  let c := o.choose header timestamp fmt0
  let s ← s.putHeader (firstHeader c header)
  let s := s.setStream header.csId (o.record header c)
  bodyLoop slot header.msgLen (nextHeader header.csId c.timestamp) (header.msgLen.toNat + 1) s 0

/-- `BuildChunk(const PacketPtr&)`: the packet is kept alive before its chunks are built. -/
def buildChunkShared (s : RtmpOut) (packet : Packet) (timestamp : UInt32) (fmt0 : Bool) :
    Checked (RtmpOut × Bool) :=
  match packet.ext with
  | none => .ok (s, false)
  | some header => do
      let slot := s.outSendingPackets.length
      let s := { s with outSendingPackets := s.outSendingPackets ++ [packet] }
      let s ← s.chunkMessage slot header timestamp fmt0
      return (s, true)

/-- `BuildChunk(PacketPtr&&)`: the packet is moved to the kept ones afterwards. -/
def buildChunk (s : RtmpOut) (packet : Packet) (timestamp : UInt32) (fmt0 : Bool) :
    Checked (RtmpOut × Bool) :=
  match packet.ext with
  | none => .ok (s, false)
  | some header => do
      let s ← s.chunkMessage s.outSendingPackets.length header timestamp fmt0
      return ({ s with outSendingPackets := s.outSendingPackets ++ [packet] }, true)

/-- The bytes a node points to. -/
def nodeBytes (s : RtmpOut) (node : BufferNode) : Checked (List UInt8) :=
  match node.addr with
  | .outBuffer off => readBytes s.outBuffer.bytes off node.size
  | .packet slot off =>
      match s.outSendingPackets[slot]? with
      | some packet => readBytes packet.data off node.size
      | none => .error .outOfBounds

/-- What `sending_bufs_` puts on the wire. -/
def sendingBytes (s : RtmpOut) : Checked (List UInt8) := do
  let pieces ← s.sendingBufs.mapM s.nodeBytes
  return pieces.flatten

/-- The part of `CheckAndSend` before the next batch is started. -/
def reset (s : RtmpOut) : RtmpOut :=
  { s with sending := false, outCurrent := 0, sendingBufs := [], outSendingPackets := [] }

end RtmpOut
end TmmsServer
