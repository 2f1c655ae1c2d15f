import TmmsServer.Mmedia.Bytes

/-!
# `MsgBuffer`

The buffer of a connection: the bytes between `head_` and `tail_` of a vector.
Sizes are `size_t`. A `std::copy` onto itself keeps its bytes; a byte outside the
vector is a fault.
-/
namespace TmmsServer

def kBufferOffset : Nat := 8

/-- No vector has this many bytes; a 64-bit host cannot address them. -/
def kMaxVector : Nat := 2 ^ 62

def sizeAdd (a b : Nat) : Nat := (a + b) % 2 ^ 64

def sizeSub (a b : Nat) : Nat := if b ≤ a then a - b else a + 2 ^ 64 - b

/-- `std::vector<char>(n)`. -/
def newVector (n : Nat) : Checked (List UInt8) :=
  if n < kMaxVector then .ok (List.replicate n 0) else .error .badAlloc

/-- `resize`. -/
def resizeVector (buffer : List UInt8) (n : Nat) : Checked (List UInt8) :=
  if n ≤ buffer.length then .ok (buffer.take n)
  else if n < kMaxVector then .ok (buffer ++ List.replicate (n - buffer.length) 0)
  else .error .badAlloc

structure MsgBuffer where
  head : Nat
  initCap : Nat
  buffer : List UInt8
  tail : Nat
  deriving DecidableEq

namespace MsgBuffer

/-- The constructor. -/
def new (len : Nat) : Checked MsgBuffer := do
  let buffer ← newVector (sizeAdd len kBufferOffset)
  return { head := kBufferOffset, initCap := len, buffer, tail := kBufferOffset }

def readableBytes (m : MsgBuffer) : Nat := sizeSub m.tail m.head

def writableBytes (m : MsgBuffer) : Nat := sizeSub m.buffer.length m.tail

/-- The readable bytes. -/
def peek (m : MsgBuffer) : Checked (List UInt8) := readBytes m.buffer m.head m.readableBytes

/-- Bytes are put down at `BeginWrite`, and `HasWritten`. -/
def hasWritten (m : MsgBuffer) (bytes : List UInt8) : Checked MsgBuffer := do
  let buffer ← writeBytes m.buffer m.tail bytes
  return { m with buffer, tail := sizeAdd m.tail bytes.length }

/-- The readable bytes move to the front. -/
def moveToFront (m : MsgBuffer) : Checked MsgBuffer := do
  let bytes ← m.peek
  let buffer ← writeBytes m.buffer kBufferOffset bytes
  return { m with buffer, tail := sizeAdd kBufferOffset (sizeSub m.tail m.head), head := kBufferOffset }

/-- The size of the buffer that takes the place of one that is too small. -/
def grownSize (m : MsgBuffer) (len : Nat) : Nat :=
  if sizeAdd (sizeAdd kBufferOffset m.readableBytes) len < m.buffer.length * 2 % 2 ^ 64 then
    m.buffer.length * 2 % 2 ^ 64
  else sizeAdd (sizeAdd kBufferOffset m.readableBytes) len

/-- `EnsureWritableBytes`; the new buffer calls it once more, and has the room. -/
def ensure : Nat → MsgBuffer → Nat → Checked MsgBuffer
  | 0, _, _ => .error .outOfFuel
  | fuel + 1, m, len =>
      if len ≤ m.writableBytes then .ok m
      else if sizeAdd len kBufferOffset ≤ sizeAdd m.head m.writableBytes then m.moveToFront
      else do
        let newbuffer ← new (m.grownSize len)
        let newbuffer ← ensure fuel newbuffer m.readableBytes
        let bytes ← m.peek
        newbuffer.hasWritten bytes

def ensureWritableBytes (m : MsgBuffer) (len : Nat) : Checked MsgBuffer := ensure 2 m len

def append (m : MsgBuffer) (bytes : List UInt8) : Checked MsgBuffer := do
  let m ← m.ensureWritableBytes bytes.length
  m.hasWritten bytes

/-- `Append` of another buffer. -/
def appendBuffer (m other : MsgBuffer) : Checked MsgBuffer := do
  let m ← m.ensureWritableBytes other.readableBytes
  let bytes ← other.peek
  m.hasWritten bytes

/-- `Append` of the buffer itself: it is read after the room was made. -/
def appendSelf (m : MsgBuffer) : Checked MsgBuffer := do
  let m ← m.ensureWritableBytes m.readableBytes
  let bytes ← m.peek
  m.hasWritten bytes

def addInFront (m : MsgBuffer) (bytes : List UInt8) : Checked MsgBuffer :=
  if bytes.length ≤ m.head then do
    let buffer ← writeBytes m.buffer (m.head - bytes.length) bytes
    return { m with buffer, head := m.head - bytes.length }
  else if bytes.length ≤ m.writableBytes then do
    let moved ← m.peek
    let buffer ← writeBytes m.buffer (m.head + bytes.length) moved
    let buffer ← writeBytes buffer m.head bytes
    return { m with buffer, tail := sizeAdd m.tail bytes.length }
  else do
    let newBuf ← new
      (if sizeAdd bytes.length m.readableBytes < m.initCap then m.initCap else sizeAdd bytes.length m.readableBytes)
    let newBuf ← newBuf.append bytes
    newBuf.appendBuffer m

def unwrite (m : MsgBuffer) (offset : Nat) : MsgBuffer := { m with tail := sizeSub m.tail offset }

def retrieveAll (m : MsgBuffer) : Checked MsgBuffer :=
  if m.initCap * 2 % 2 ^ 64 < m.buffer.length then do
    let buffer ← resizeVector m.buffer m.initCap
    return { m with buffer, tail := kBufferOffset, head := kBufferOffset }
  else .ok { m with tail := kBufferOffset, head := kBufferOffset }

def retrieve (m : MsgBuffer) (len : Nat) : Checked MsgBuffer :=
  if m.readableBytes ≤ len then m.retrieveAll else .ok { m with head := sizeAdd m.head len }

/-- `end` is `n` bytes behind `Peek()`. -/
def retrieveUntil (m : MsgBuffer) (n : Nat) : Checked MsgBuffer := m.retrieve n

/-- The buffer afterwards and the string. -/
def read (m : MsgBuffer) (len : Nat) : Checked (MsgBuffer × List UInt8) := do
  let ret ← readBytes m.buffer m.head (min len m.readableBytes)
  let m ← m.retrieve (min len m.readableBytes)
  return (m, ret)

def kExtBuffer : Nat := 8192

/-- The room `readv` is given: the writable bytes and the buffer on the stack, or the writable bytes
alone, their number cast to `int`. A negative one makes the call fail. -/
def readvRoom (m : MsgBuffer) : Nat :=
  if m.writableBytes < kExtBuffer then m.writableBytes + kExtBuffer
  else if m.writableBytes % 2 ^ 32 < 2 ^ 31 then m.writableBytes % 2 ^ 32
  else 0

/-- `ReadFd`, where `readv` fails or reads some bytes. -/
def readFd (m : MsgBuffer) : Option (List UInt8) → Checked MsgBuffer
  | none => .ok m
  | some data => do
      let m' ← m.hasWritten (data.take m.writableBytes)
      if data.length ≤ m.writableBytes then return m'
      else append { m' with tail := m'.buffer.length } (data.drop m.writableBytes)

end MsgBuffer

/-- Two buffers, so that there is one to swap with; the calls go to the first. -/
structure Buffers where
  buf : MsgBuffer
  other : MsgBuffer
  /-- What `Read` returned so far. -/
  reads : List (List UInt8) := []

inductive BufferOp where
  | append (bytes : List UInt8)
  | appendOther
  | appendSelf
  | addInFront (bytes : List UInt8)
  | ensureWritableBytes (len : Nat)
  | hasWritten (bytes : List UInt8)
  | unwrite (offset : Nat)
  | retrieve (len : Nat)
  | retrieveUntil (n : Nat)
  | retrieveAll
  | read (len : Nat)
  | swap
  | readFd (data : Option (List UInt8))

namespace Buffers

/-- A call on the first buffer. -/
def call (b : Buffers) (f : MsgBuffer → Checked MsgBuffer) : Checked Buffers := do
  let buf ← f b.buf
  return { b with buf }

def step (b : Buffers) : BufferOp → Checked Buffers
  | .append bytes => b.call (·.append bytes)
  | .appendOther => b.call (·.appendBuffer b.other)
  | .appendSelf => b.call (·.appendSelf)
  | .addInFront bytes => b.call (·.addInFront bytes)
  | .ensureWritableBytes len => b.call (·.ensureWritableBytes len)
  | .hasWritten bytes => b.call (·.hasWritten bytes)
  | .unwrite offset => b.call fun m => .ok (m.unwrite offset)
  | .retrieve len => b.call (·.retrieve len)
  | .retrieveUntil n => b.call (·.retrieveUntil n)
  | .retrieveAll => b.call (·.retrieveAll)
  | .read len => do
      let (buf, ret) ← b.buf.read len
      return { b with buf, reads := b.reads ++ [ret] }
  | .swap => .ok { b with buf := b.other, other := b.buf }
  | .readFd data => b.call (·.readFd data)

def run (b : Buffers) (ops : List BufferOp) : Checked Buffers := ops.foldlM step b

end Buffers
end TmmsServer
