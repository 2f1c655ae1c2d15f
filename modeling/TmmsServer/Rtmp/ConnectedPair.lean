import TmmsServer.Rtmp.HandShakePair

/-!
# A client and a server from the first byte on

Both contexts with their connections, from `StartHandShake` over the handshake to
the commands. What a socket took arrives in order, in pieces of any length and at
any time. No write fails, and `HandShake` never returns 2.
-/
namespace TmmsServer
open Lib.Feed

/-- What `OnWrite` leaves of the bytes in front of `io_vec_list_`, and its results for what is behind
them. -/
def writeFront : List UInt8 → List WriteResult → List UInt8 × List WriteResult
  | front, [] => (front, [])
  | front, .accepted n :: results =>
      if n < front.length then writeFront (front.drop n) results
      else ([], .accepted (n - front.length) :: results)
  | front, .again :: _ => (front, [])
  | front, .failed :: _ => (front, [])

inductive SessionRole where
  | client (client : RtmpClient)
  | server (server : RtmpServer)

namespace SessionRole

def isClient : SessionRole → Bool
  | .client _ => true
  | .server _ => false

/-- The context as it enters `kRtmpMessage`. -/
def enter : SessionRole → Checked RtmpPeer
  | .client c => c.enter
  | .server s => .ok { ctx := s.onNewConnection.ctx }

end SessionRole

inductive SessionPhase where
  | shaking (role : SessionRole) (handshake : RtmpHandShake) (buf : List UInt8)
  | talking (peer : RtmpPeer)
  | closed

/-- A connection with its context. The bytes of the handshake are those the socket took, and those that
are left in `io_vec_list_`, in front of the vectors of messages. -/
structure ConnectedPeer where
  phase : SessionPhase
  taken : List UInt8 := []
  unsent : List UInt8 := []

/-- `OnWriteComplete` in `kRtmpMessage`. -/
def RtmpPeer.onWriteComplete (p : RtmpPeer) : Checked RtmpPeer := do
  let out ← p.ctx.commands.out.checkAndSend
  return { p with ctx := { p.ctx with commands := { p.ctx.commands with out } } }

namespace ConnectedPeer

/-- What the socket has accepted. -/
def wire (p : ConnectedPeer) : List UInt8 :=
  match p.phase with
  | .talking peer => p.taken ++ peer.wire
  | _ => p.taken

/-- `OnWriteComplete` in `kRtmpHandShake`. -/
def writeComplete (p : ConnectedPeer) : ConnectedPeer :=
  match p.phase with
  | .shaking role handshake buf => { p with phase := .shaking role handshake.writeComplete buf }
  | _ => p

/-- `SendInLoop` of a packet of the handshake; where it writes at once, the socket takes `n` bytes at most. -/
def send (p : ConnectedPeer) (packet : List UInt8) (n : Nat) : ConnectedPeer :=
  if p.unsent = [] then
    let p := { p with taken := p.taken ++ packet.take n, unsent := packet.drop n }
    if p.unsent = [] then p.writeComplete else p
  else { p with unsent := p.unsent ++ packet }

/-- All but these bytes of the handshake are written. -/
def writes (p : ConnectedPeer) (left : List UInt8) : ConnectedPeer :=
  { p with taken := p.taken ++ p.unsent.take (p.unsent.length - left.length), unsent := left }

def onWrite (p : ConnectedPeer) (results : List WriteResult) : Checked ConnectedPeer :=
  let front := writeFront p.unsent results
  match p.phase with
  | .shaking _ _ _ =>
      .ok (if p.unsent ≠ [] ∧ front.1 = [] then (p.writes []).writeComplete else p.writes front.1)
  | .talking peer =>
      if p.unsent = [] then do
        let peer ← peer.onWrite results
        return { p with phase := .talking peer }
      else if front.1 ≠ [] then .ok (p.writes front.1)
      else do
        -- the same call goes on with the vectors of messages
        let peer ← if peer.ctx.commands.out.conn.ioVecList = [] then peer.onWriteComplete else peer.onWrite front.2
        return { p.writes [] with phase := .talking peer }
  | .closed => .ok p

/-- `StartHandShake`. -/
def start (hm : HmacSha256) (role : SessionRole) (nonce : Nonce) (n : Nat) : Checked ConnectedPeer := do
  let handshake ← RtmpHandShake.createC1S1 hm { isClient := role.isClient } nonce
  if role.isClient then
    let p : ConnectedPeer := { phase := .shaking role { handshake with state := .postC0C1 } [] }
    return p.send handshake.c1s1 n
  else return { phase := .shaking role { handshake with state := .waitC0C1 } [] }

variable [Host]

/-- `OnMessage`: `Parse`, and `ForceClose` where it returns -1. -/
def onMessage (hm : HmacSha256) (p : ConnectedPeer) (nonce : Nonce) (n : Nat) (piece : List UInt8) :
    Checked ConnectedPeer :=
  match p.phase with
  | .shaking role handshake buf => do
      let r ← handshake.handShake hm nonce (buf ++ piece)
      let p := r.sent.foldl (fun p packet => p.send packet n) { p with phase := .shaking role r.hs r.buf }
      if r.ret = 0 then do
        let peer ← role.enter
        let peer ← if 0 < r.buf.length then peer.parse r.buf else pure peer
        return { p with phase := .talking peer }
      else if r.ret = -1 then return { p with phase := .closed }
      else return p
  | .talking peer => do
      let peer ← peer.parse piece
      return { p with phase := .talking peer }
  | .closed => .ok p

end ConnectedPeer

inductive SessionStep where
  | clientWrites (turn : WriteTurn)
  | serverWrites (turn : WriteTurn)
  /-- At most `k` bytes arrive; of a packet that is sent on them, the socket takes `n` at once. -/
  | clientReads (k : Nat) (nonce : Nonce) (n : Nat)
  | serverReads (k : Nat) (nonce : Nonce) (n : Nat)

/-- Both sides, with the number of bytes that arrived at the server and at the client. -/
structure ConnectedPair where
  client : ConnectedPeer
  server : ConnectedPeer
  toServer : Nat := 0
  toClient : Nat := 0

namespace ConnectedPair

def start (hm : HmacSha256) (client : RtmpClient) (server : RtmpServer) (clientNonce serverNonce : Nonce) (n : Nat) :
    Checked ConnectedPair := do
  let client ← ConnectedPeer.start hm (.client client) clientNonce n
  let server ← ConnectedPeer.start hm (.server server) serverNonce n
  return { client, server }

variable [Host]

/-- `OnRead` calls nobody where nothing came. -/
def step (hm : HmacSha256) (pair : ConnectedPair) : SessionStep → Checked ConnectedPair
  | .clientWrites turn => do
      let client ← pair.client.onWrite turn.1
      return { pair with client }
  | .serverWrites turn => do
      let server ← pair.server.onWrite turn.1
      return { pair with server }
  | .clientReads k nonce n =>
      let piece := RtmpPair.arriving pair.server.wire pair.toClient k
      if piece = [] then .ok pair
      else do
        let client ← pair.client.onMessage hm nonce n piece
        return { pair with client, toClient := pair.toClient + piece.length }
  | .serverReads k nonce n =>
      let piece := RtmpPair.arriving pair.client.wire pair.toServer k
      if piece = [] then .ok pair
      else do
        let server ← pair.server.onMessage hm nonce n piece
        return { pair with server, toServer := pair.toServer + piece.length }

def run (hm : HmacSha256) (pair : ConnectedPair) (steps : List SessionStep) : Checked ConnectedPair :=
  steps.foldlM (step hm) pair

end ConnectedPair
end TmmsServer
