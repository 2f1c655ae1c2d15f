import TmmsServer.Lib.Words

/-!
# SHA-256 and HMAC

The hash over byte lists, block by block, and the keyed hash made from it.
-/
namespace Lib.Sha256
open Lib.Words

def roundConstants : List UInt32 := [
  0x428a2f98, 0x71374491, 0xb5c0fbcf, 0xe9b5dba5, 0x3956c25b, 0x59f111f1, 0x923f82a4, 0xab1c5ed5,
  0xd807aa98, 0x12835b01, 0x243185be, 0x550c7dc3, 0x72be5d74, 0x80deb1fe, 0x9bdc06a7, 0xc19bf174,
  0xe49b69c1, 0xefbe4786, 0x0fc19dc6, 0x240ca1cc, 0x2de92c6f, 0x4a7484aa, 0x5cb0a9dc, 0x76f988da,
  0x983e5152, 0xa831c66d, 0xb00327c8, 0xbf597fc7, 0xc6e00bf3, 0xd5a79147, 0x06ca6351, 0x14292967,
  0x27b70a85, 0x2e1b2138, 0x4d2c6dfc, 0x53380d13, 0x650a7354, 0x766a0abb, 0x81c2c92e, 0x92722c85,
  0xa2bfe8a1, 0xa81a664b, 0xc24b8b70, 0xc76c51a3, 0xd192e819, 0xd6990624, 0xf40e3585, 0x106aa070,
  0x19a4c116, 0x1e376c08, 0x2748774c, 0x34b0bcb5, 0x391c0cb3, 0x4ed8aa4a, 0x5b9cca4f, 0x682e6ff3,
  0x748f82ee, 0x78a5636f, 0x84c87814, 0x8cc70208, 0x90befffa, 0xa4506ceb, 0xbef9a3f7, 0xc67178f2]

/-- The eight words carried from block to block. -/
structure Chaining where
  a : UInt32
  b : UInt32
  c : UInt32
  d : UInt32
  e : UInt32
  f : UInt32
  g : UInt32
  h : UInt32
  deriving DecidableEq

namespace Chaining

def initial : Chaining :=
  ⟨0x6a09e667, 0xbb67ae85, 0x3c6ef372, 0xa54ff53a, 0x510e527f, 0x9b05688c, 0x1f83d9ab, 0x5be0cd19⟩

def add (s t : Chaining) : Chaining :=
  ⟨s.a + t.a, s.b + t.b, s.c + t.c, s.d + t.d, s.e + t.e, s.f + t.f, s.g + t.g, s.h + t.h⟩

def bytes (s : Chaining) : List UInt8 :=
  [s.a, s.b, s.c, s.d, s.e, s.f, s.g, s.h].flatMap fun w => beBytes 4 w.toNat

theorem bytes_length (s : Chaining) : s.bytes.length = 32 := rfl

end Chaining

def rotateRight (x n : UInt32) : UInt32 := x >>> n ||| x <<< (32 - n)

/-- The next word of the schedule, from the sixteen before it. -/
def nextWord (w : List UInt32) : UInt32 :=
  let x := w.getD 1 0
  let y := w.getD 14 0
  (rotateRight y 17 ^^^ rotateRight y 19 ^^^ y >>> 10) + w.getD 9 0 +
    (rotateRight x 7 ^^^ rotateRight x 18 ^^^ x >>> 3) + w.getD 0 0

/-- `n` words of the schedule that starts with the window `w`. -/
def schedule : Nat → List UInt32 → List UInt32
  | 0, _ => []
  | n + 1, w => w.headD 0 :: schedule n (w.tail ++ [nextWord w])

def round (s : Chaining) (kw : UInt32 × UInt32) : Chaining :=
  let s1 := rotateRight s.e 6 ^^^ rotateRight s.e 11 ^^^ rotateRight s.e 25
  let t1 := s.h + s1 + (s.e &&& s.f ^^^ ~~~ s.e &&& s.g) + kw.1 + kw.2
  let s0 := rotateRight s.a 2 ^^^ rotateRight s.a 13 ^^^ rotateRight s.a 22
  let t2 := s0 + (s.a &&& s.b ^^^ s.a &&& s.c ^^^ s.b &&& s.c)
  ⟨t1 + t2, s.a, s.b, s.c, s.d + t1, s.e, s.f, s.g⟩

def compress (s : Chaining) (block : List UInt8) : Chaining :=
  let window := (List.range 16).map fun i => UInt32.ofNat (beValue ((block.drop (4 * i)).take 4))
  s.add ((roundConstants.zip (schedule 64 window)).foldl round s)

/-- A message, a one bit, zeros, and the number of bits in 64, to a multiple of 64 bytes. -/
def pad (msg : List UInt8) : List UInt8 :=
  msg ++ 0x80 :: (List.replicate ((119 - msg.length % 64) % 64) 0 ++ beBytes 8 (8 * msg.length))

def sha256 (msg : List UInt8) : List UInt8 :=
  let padded := pad msg
  ((List.range (padded.length / 64)).foldl (fun s i => compress s ((padded.drop (64 * i)).take 64)) .initial).bytes

example : sha256 [97, 98, 99] = [
    0xba, 0x78, 0x16, 0xbf, 0x8f, 0x01, 0xcf, 0xea, 0x41, 0x41, 0x40, 0xde, 0x5d, 0xae, 0x22, 0x23,
    0xb0, 0x03, 0x61, 0xa3, 0x96, 0x17, 0x7a, 0x9c, 0xb4, 0x10, 0xff, 0x61, 0xf2, 0x00, 0x15, 0xad] := by
  decide +kernel

def hmac (key msg : List UInt8) : List UInt8 :=
  let key := if 64 < key.length then sha256 key else key
  let block := key ++ List.replicate (64 - key.length) 0
  sha256 (block.map (· ^^^ 0x5c) ++ sha256 (block.map (· ^^^ 0x36) ++ msg))

theorem hmac_length (key msg : List UInt8) : (hmac key msg).length = 32 := Chaining.bytes_length _

end Lib.Sha256
