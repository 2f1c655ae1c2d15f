import TmmsServer.Mmedia.Bytes

/-!
# Packets and message headers

`Packet` and `RtmpMsgHeader`, with the constants of `packet.h` and `rtmp_hander.h`
that the modelled functions use.
-/
namespace TmmsServer
open Lib.Words

def kPacketTypeVideo : Nat := 1
def kPacketTypeAudio : Nat := 2
def kPacketTypeMeta : Nat := 4
def kPacketTypeMeta3 : Nat := 8
def kPacketTypeUnKnowed : Nat := 255

def kRtmpMsgTypeChunkSize : UInt8 := 1
def kRtmpMsgTypeBytesRead : UInt8 := 3
def kRtmpMsgTypeUserControl : UInt8 := 4
def kRtmpMsgTypeWindowACKSize : UInt8 := 5
def kRtmpMsgTypeSetPeerBW : UInt8 := 6
def kRtmpMsgTypeAudio : UInt8 := 8
def kRtmpMsgTypeVideo : UInt8 := 9
def kRtmpMsgTypeAMF3Meta : UInt8 := 15
def kRtmpMsgTypeAMF3Message : UInt8 := 17
def kRtmpMsgTypeAMFMeta : UInt8 := 18
def kRtmpMsgTypeAMFMessage : UInt8 := 20

def kRtmpCSIDCommand : UInt32 := 2
def kRtmpCSIDAMFIni : UInt32 := 3
def kRtmpMsID0 : UInt32 := 0
def kRtmpMsID1 : UInt32 := 1

/-- The four shapes of a chunk header. -/
inductive RtmpFmt where
  | fmt0
  | fmt1
  | fmt2
  | fmt3
  deriving DecidableEq, Repr

namespace RtmpFmt

def code : RtmpFmt → Nat
  | fmt0 => 0
  | fmt1 => 1
  | fmt2 => 2
  | fmt3 => 3

def ofCode : Nat → RtmpFmt
  | 0 => fmt0
  | 1 => fmt1
  | 2 => fmt2
  | _ => fmt3

@[simp] theorem ofCode_code (fmt : RtmpFmt) : ofCode fmt.code = fmt := by cases fmt <;> rfl

theorem code_lt (fmt : RtmpFmt) : fmt.code < 4 := by cases fmt <;> decide

end RtmpFmt

structure RtmpMsgHeader where
  csId : UInt32 := 0
  timestamp : UInt32 := 0
  msgLen : UInt32 := 0
  msgType : UInt8 := 0
  msgSid : UInt32 := 0
  deriving DecidableEq, Repr

/-- `data` holds the `size_` bytes stored so far; the packet has room for `capacity` bytes. -/
structure Packet where
  type : Nat := kPacketTypeUnKnowed
  index : Int := -1
  timestamp : UInt64 := 0
  capacity : Nat
  data : List UInt8 := []
  ext : Option RtmpMsgHeader := none
  deriving DecidableEq, Repr

namespace Packet

/-- A negative size is a fault: the allocation throws, or, from -1 down to -`sizeof(Packet)`, the block is too small
for the `Packet` that is written to it. -/
def newPacket (size : Int) : Checked Packet :=
  if size < 0 then .error .badAlloc else .ok { capacity := size.toNat }

theorem newPacket_natCast (n : Nat) : newPacket n = .ok { capacity := n } :=
  if_neg (Int.not_lt.mpr (Int.natCast_nonneg n))

def packetSize (p : Packet) : Nat := p.data.length

def space (p : Packet) : Int := int32 (p.capacity - p.data.length)

def setExt (p : Packet) (header : RtmpMsgHeader) : Packet := { p with ext := some header }

/-- `memcpy` of `body` behind the bytes stored so far and `UpdatePacketSize`. -/
def store (p : Packet) (body : List UInt8) : Checked Packet :=
  if p.data.length + body.length ≤ p.capacity then .ok { p with data := p.data ++ body }
  else .error .outOfBounds

end Packet
end TmmsServer
