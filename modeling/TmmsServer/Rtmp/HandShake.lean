import TmmsServer.Rtmp.ChunkReader

/-!
# The handshake

`RtmpHandShake` for both roles, and the part of `RtmpContext` that runs it and
goes over to messages. The random bytes, the time and HMAC-SHA256 are inputs.
`connection_->Send` is the last thing a function does; when the socket takes all
bytes at once, the write-complete callback runs before it returns.
-/
namespace TmmsServer
open BytesReader Lib.Feed

/-- HMAC-SHA256: 32 bytes for a key and a message. -/
structure HmacSha256 where
  digest : List UInt8 → List UInt8 → List UInt8
  length_eq : ∀ key msg, (digest key msg).length = 32

/-- What a call finds outside: random bytes, and the time in seconds. -/
structure Nonce where
  random : Nat → UInt8 := fun _ => 0
  now : UInt32 := 0

def kRtmpHandShakePacketSize : Nat := 1536

def rtmpServerVer : List UInt8 := [0x0D, 0x0E, 0x0A, 0x0D]
def rtmpClientVer : List UInt8 := [0x0C, 0x00, 0x0D, 0x0E]

/-- The end of both keys. -/
def keyTail : List UInt8 := [
  0xF0, 0xEE, 0xC2, 0x4A, 0x80, 0x68, 0xBE, 0xE8, 0x2E, 0x00, 0xD0, 0xD1, 0x02, 0x9E, 0x7E, 0x57,
  0x6E, 0xEC, 0x5D, 0x2D, 0x29, 0x80, 0x6F, 0xAB, 0x93, 0xB8, 0xE6, 0x36, 0xCF, 0xEB, 0x31, 0xAE]

/-- "Genuine Adobe Flash Player 001" and the tail. -/
def rtmpPlayerKey : List UInt8 :=
  [71, 101, 110, 117, 105, 110, 101, 32, 65, 100, 111, 98, 101, 32, 70, 108, 97, 115, 104, 32, 80, 108, 97, 121,
    101, 114, 32, 48, 48, 49] ++ keyTail

/-- "Genuine Adobe Flash Media Server 001" and the tail. -/
def rtmpServerKey : List UInt8 :=
  [71, 101, 110, 117, 105, 110, 101, 32, 65, 100, 111, 98, 101, 32, 70, 108, 97, 115, 104, 32, 77, 101, 100, 105,
    97, 32, 83, 101, 114, 118, 101, 114, 32, 48, 48, 49] ++ keyTail

def playerKeyOpenPartLen : Nat := 30
def serverKeyOpenPartLen : Nat := 36

def calculateDigest (hm : HmacSha256) (src : List UInt8) (len gap : Nat) (key : List UInt8) :
    Checked (List UInt8) :=
  if gap = 0 then do
    let msg ← readBytes src 0 len
    return hm.digest key msg
  else do
    let left ← readBytes src 0 gap
    let right ← readBytes src (gap + 32) (len - gap - 32)
    return hm.digest key (left ++ right)

def verifyDigest (hm : HmacSha256) (buf : List UInt8) (digestPos : Nat) (key : List UInt8) :
    Checked Bool := do
  let digest ← calculateDigest hm buf 1536 digestPos key
  let sent ← readBytes buf digestPos 32
  return sent == digest

def getDigestOffset (buf : List UInt8) (off modVal : Nat) : Checked Nat := do
  let ptr ← readBytes buf off 4
  return (ptr.map UInt8.toNat).sum % modVal + (off + 4)

inductive HandShakeState where
  | init
  | postC0C1
  | waitS0S1
  | postC2
  | waitS2
  | doning
  | waitC0C1
  | postS0S1
  | postS2
  | waitC2
  | done
  deriving DecidableEq, Repr

structure RtmpHandShake where
  isClient : Bool
  isComplexHandshake : Bool := true
  c1s1 : List UInt8 := []
  c2s2 : List UInt8 := []
  state : HandShakeState := .init
  deriving DecidableEq

/-- What `CheckC1S1` finds: whether the handshake is a complex one from here on, and the offset of
the digest unless the packet is turned down. -/
structure C1S1Check where
  isComplex : Bool
  offset : Option Nat
  deriving DecidableEq, Repr

def checkDigests (hm : HmacSha256) (isComplex : Bool) (handshake key : List UInt8) :
    Checked C1S1Check := do
  let offset ← getDigestOffset handshake 8 728
  let first ← verifyDigest hm handshake offset key
  if first then return ⟨isComplex, some offset⟩
  else do
    let offset ← getDigestOffset handshake 772 728
    let second ← verifyDigest hm handshake offset key
    return ⟨isComplex, if second then some offset else none⟩

def checkC1S1 (hm : HmacSha256) (isClient isComplex : Bool) (data : List UInt8) :
    Checked C1S1Check := do
  let c ← readUint8T data 0
  if c ≠ 3 then return ⟨isComplex, none⟩
  else do
    let version ← copyUint32 data 5
    if version = 0 then return ⟨false, some 0⟩
    else if isComplex then
      checkDigests hm isComplex (data.drop 1)
        (bif isClient then rtmpServerKey.take serverKeyOpenPartLen else rtmpPlayerKey.take playerKeyOpenPartLen)
    else return ⟨isComplex, some 0⟩

namespace RtmpHandShake

def createC1S1 (hm : HmacSha256) (hs : RtmpHandShake) (nonce : Nonce) : Checked RtmpHandShake := do
  let c1s1 := (List.range (kRtmpHandShakePacketSize + 1)).map nonce.random
  let c1s1 ← writeBytes c1s1 0 [3]
  let c1s1 ← writeBytes c1s1 1 [0, 0, 0, 0]
  if hs.isComplexHandshake then
    let offset ← getDigestOffset (c1s1.drop 1) 8 728
    let c1s1 ← writeBytes c1s1 5 (bif hs.isClient then rtmpClientVer else rtmpServerVer)
    let data ← calculateDigest hm (c1s1.drop 1) kRtmpHandShakePacketSize offset
      (bif hs.isClient then rtmpPlayerKey.take playerKeyOpenPartLen else rtmpServerKey.take serverKeyOpenPartLen)
    let c1s1 ← writeBytes c1s1 (1 + offset) data
    return { hs with c1s1 }
  else
    let c1s1 ← writeBytes c1s1 5 [0, 0, 0, 0]
    return { hs with c1s1 }

/-- `data` is the packet of the other side. -/
def createC2S2 (hm : HmacSha256) (hs : RtmpHandShake) (nonce : Nonce) (data : List UInt8)
    (offset : Nat) : Checked RtmpHandShake := do
  let c2s2 := (List.range kRtmpHandShakePacketSize).map nonce.random
  let front ← readBytes data 0 8
  let c2s2 ← writeBytes c2s2 0 front
  let c2s2 ← writeBytes c2s2 0 (BytesWriter.writeUint32T nonce.now)
  if hs.isComplexHandshake then
    let digest ← calculateDigest hm (data.drop offset) 32 0 (bif hs.isClient then rtmpPlayerKey else rtmpServerKey)
    let last ← calculateDigest hm c2s2 (kRtmpHandShakePacketSize - 32) 0 digest
    let c2s2 ← writeBytes c2s2 (kRtmpHandShakePacketSize - 32) last
    return { hs with c2s2 }
  else return { hs with c2s2 }

def writeComplete (hs : RtmpHandShake) : RtmpHandShake :=
  match hs.state with
  | .postS0S1 => { hs with state := .waitC2 }
  | .postS2 => { hs with state := .done }
  | .postC0C1 => { hs with state := .waitS0S1 }
  | .postC2 => { hs with state := .waitS2 }
  | .doning => { hs with state := .done }
  | _ => hs

/-- What a call of `HandShake` came to: the unread bytes, the packets retrieved and sent, the return value. -/
structure Shaken where
  hs : RtmpHandShake
  buf : List UInt8
  retrieved : List (List UInt8) := []
  sent : List (List UInt8) := []
  ret : Int

/-- Check C0C1 or S0S1, at the front of the readable bytes, and answer it: the C2 or S2 is made from
it, then 1537 bytes are retrieved. -/
def receiveC1S1 (hm : HmacSha256) (hs : RtmpHandShake) (nonce : Nonce) (buf : List UInt8)
    (next : HandShakeState) (send : RtmpHandShake → List UInt8) : Checked Shaken := do
  let check ← checkC1S1 hm hs.isClient hs.isComplexHandshake buf
  let hs := { hs with isComplexHandshake := check.isComplex }
  match check.offset with
  | none => return { hs, buf, ret := -1 }
  | some offset =>
      let hs ← hs.createC2S2 hm nonce (buf.drop 1) offset
      return {
        hs := { hs with state := next }
        buf := buf.drop (kRtmpHandShakePacketSize + 1)
        retrieved := [buf.take (kRtmpHandShakePacketSize + 1)]
        sent := [send hs]
        ret := 1 }

def handShake (hm : HmacSha256) (hs : RtmpHandShake) (nonce : Nonce) (buf : List UInt8) :
    Checked Shaken :=
  match hs.state with
  | .waitC0C1 =>
      if buf.length < kRtmpHandShakePacketSize + 1 then .ok { hs, buf, ret := 1 }
      else hs.receiveC1S1 hm nonce buf .postS0S1 c1s1
  | .waitC2 =>
      if buf.length < kRtmpHandShakePacketSize then .ok { hs, buf, ret := 1 }
      else .ok {
        hs := { hs with state := .postS2 }
        buf := buf.drop kRtmpHandShakePacketSize
        retrieved := [buf.take kRtmpHandShakePacketSize]
        sent := [hs.c2s2]
        ret := 0 }
  | .waitS0S1 =>
      -- one byte less than the packet that is read then
      if buf.length < kRtmpHandShakePacketSize then .ok { hs, buf, ret := 1 }
      else hs.receiveC1S1 hm nonce buf .postC2 c2s2
  | .waitS2 =>
      if buf.length < kRtmpHandShakePacketSize then .ok { hs, buf, ret := 1 }
      else .ok {
        hs := { hs with state := .done }
        buf := buf.drop kRtmpHandShakePacketSize
        retrieved := [buf.take kRtmpHandShakePacketSize]
        ret := 0 }
  | _ => .ok { hs, buf, ret := 1 }

end RtmpHandShake

inductive RtmpContextState where
  | handShake
  | watingDone
  | message
  deriving DecidableEq, Repr

/-- The context as far as reading goes. Once it is in `kRtmpMessage` it also sends, and a completed
write goes to `CheckAndSend`; reading does not look at that. -/
structure RtmpContext where
  state : RtmpContextState := .handShake
  handshake : RtmpHandShake
  inn : RtmpIn := {}

/-- What a call of `Parse` came to; `fin` has the unread bytes, or the fault that ended it. -/
structure Parsed where
  ctx : RtmpContext
  ret : Int
  retrieved : List (List UInt8) := []
  sent : List (List UInt8) := []
  out : List Packet := []
  fin : Except Fault (List UInt8)

namespace RtmpContext

def onWriteComplete (ctx : RtmpContext) : RtmpContext :=
  match ctx.state with
  | .handShake => { ctx with handshake := ctx.handshake.writeComplete }
  | .watingDone => { ctx with state := .message }
  | .message => ctx

/-- `Parse` in `kRtmpMessage`. -/
def parseMessages (ctx : RtmpContext) (buf : List UInt8) : Parsed :=
  let r := parseMessage ctx.inn buf
  match r.fin with
  | .ok (inn, rest) => { ctx := { ctx with inn }, ret := 1, out := r.out, fin := .ok rest }
  | .error e => { ctx, ret := 1, out := r.out, fin := .error e }

/-- `Parse`; `sync` tells whether a write it starts is complete at once. -/
def parse (hm : HmacSha256) (ctx : RtmpContext) (nonce : Nonce) (sync : Bool) (buf : List UInt8) : Parsed :=
  match ctx.state with
  | .handShake =>
      match ctx.handshake.handShake hm nonce buf with
      | .error e => { ctx, ret := 1, fin := .error e }
      | .ok r =>
          let ctx := { ctx with handshake := r.hs }
          let ctx := if r.sent ≠ [] ∧ sync then ctx.onWriteComplete else ctx
          if r.ret = 0 then
            let ctx := { ctx with state := .message }
            if 0 < r.buf.length then
              { ctx.parseMessages r.buf with retrieved := r.retrieved, sent := r.sent }
            else { ctx, ret := 0, retrieved := r.retrieved, sent := r.sent, fin := .ok r.buf }
          else if r.ret = 2 then
            { ctx := { ctx with state := .watingDone }, ret := 2, retrieved := r.retrieved, sent := r.sent
              fin := .ok r.buf }
          else { ctx, ret := r.ret, retrieved := r.retrieved, sent := r.sent, fin := .ok r.buf }
  | .watingDone => { ctx, ret := 0, fin := .ok buf }
  | .message => ctx.parseMessages buf

end RtmpContext

inductive SessionEvent where
  | deliver (piece : List UInt8) (nonce : Nonce) (sync : Bool)
  | writeComplete

/-- A context with its unread bytes, what it read and wrote so far, and whether a write of the
handshake is under way. -/
structure Session where
  ctx : RtmpContext
  buf : List UInt8 := []
  ret : Int := 1
  retrieved : List (List UInt8) := []
  sent : List (List UInt8) := []
  out : List Packet := []
  pending : Bool := false
  fault : Option Fault := none

namespace Session

/-- `StartHandShake`: the server waits, the client sends C0C1. -/
def start (hm : HmacSha256) (client : Bool) (nonce : Nonce) (sync : Bool) : Checked Session := do
  let hs ← RtmpHandShake.createC1S1 hm { isClient := client } nonce
  if client then
    let hs := { hs with state := .postC0C1 }
    return {
      ctx := { handshake := if sync then hs.writeComplete else hs }
      sent := [hs.c1s1]
      pending := !sync }
  else return { ctx := { handshake := { hs with state := .waitC0C1 } } }

/-- The write under way, if any, is complete. -/
def complete (s : Session) : Session :=
  if s.pending then { s with ctx := s.ctx.onWriteComplete, pending := false } else s

/-- The session after a call of `Parse`. -/
def after (s : Session) (sync : Bool) (p : Parsed) : Session where
  ctx := p.ctx
  buf := p.fin.toOption.getD []
  ret := p.ret
  retrieved := s.retrieved ++ p.retrieved
  sent := s.sent ++ p.sent
  out := s.out ++ p.out
  pending := s.pending || (p.sent ≠ [] && !sync)
  fault := match p.fin with
    | .ok _ => none
    | .error e => some e

def step (hm : HmacSha256) (s : Session) : SessionEvent → Session
  | .deliver piece nonce sync =>
      if s.fault.isSome then s else s.after sync (s.ctx.parse hm nonce sync (s.buf ++ piece))
  | .writeComplete => s.complete

def run (hm : HmacSha256) (s : Session) (events : List SessionEvent) : Session :=
  events.foldl (step hm) s

end Session
end TmmsServer
