import TmmsServer.Lib.Double
import TmmsServer.Lib.Words

/-!
# Checked byte access, `BytesReader` and `BytesWriter`

The source reads through bare pointers. Here a read beyond the bytes behind the
pointer is a fault, so that a run which returns has stayed inside its memory.
The host is little-endian.
-/
namespace TmmsServer
open Lib.Words

/-- What ends a run other than returning; `outOfFuel` is a bound of the model, never met from its
entry points. -/
inductive Fault where
  | outOfBounds
  | nullDeref
  | badAlloc
  | outOfFuel
  deriving DecidableEq, Repr

abbrev Checked (α : Type) := Except Fault α

theorem ok_bind {α β : Type} (a : α) (f : α → Checked β) : (Except.ok a >>= f) = f a := by
  simp only [bind, Except.bind]

theorem error_bind {α β : Type} (e : Fault) (f : α → Checked β) :
    ((Except.error e : Checked α) >>= f) = .error e := by
  simp only [bind, Except.bind]

theorem map_ok {α β : Type} (f : α → β) (a : α) : (Except.ok a : Checked α).map f = .ok (f a) := rfl

theorem map_error {α β : Type} (f : α → β) (e : Fault) :
    (Except.error e : Checked α).map f = .error e := rfl

theorem of_bind_ok {α β : Type} {x : Checked α} {f : α → Checked β} {b : β} (h : x >>= f = .ok b) :
    ∃ a, x = .ok a ∧ f a = .ok b := by
  cases x with
  | error e => exact absurd h nofun
  | ok a => exact ⟨a, rfl, h⟩

theorem of_map_ok {α β : Type} {x : Checked α} {f : α → β} {b : β} (h : x.map f = .ok b) :
    ∃ a, x = .ok a ∧ f a = b := by
  cases x with
  | error e => exact absurd h nofun
  | ok a => exact ⟨a, rfl, Except.ok.inj h⟩

theorem ok_of_toOption {α : Type} {x : Checked α} {a : α} (h : x.toOption = some a) :
    x = .ok a := by
  cases x with
  | error e => exact absurd h nofun
  | ok b => exact congrArg Except.ok (Option.some.inj h)

/-- The `n` bytes at offset `off` of the memory behind a pointer. -/
def readBytes (data : List UInt8) (off n : Nat) : Checked (List UInt8) :=
  if off + n ≤ data.length then .ok ((data.drop off).take n) else .error .outOfBounds

theorem readBytes_of_le {data : List UInt8} {off n : Nat} (h : off + n ≤ data.length) :
    readBytes data off n = .ok ((data.drop off).take n) := if_pos h

theorem readBytes_ok {data bs : List UInt8} {off n : Nat} (h : readBytes data off n = .ok bs) :
    off + n ≤ data.length ∧ bs = (data.drop off).take n := by
  unfold readBytes at h
  split at h
  next hle => exact ⟨hle, (Except.ok.inj h).symm⟩
  next => exact absurd h nofun

theorem readBytes_append {data : List UInt8} {off n : Nat} (v : List UInt8)
    (h : off + n ≤ data.length) : readBytes (data ++ v) off n = readBytes data off n := by
  have hlen : off + n ≤ (data ++ v).length := by rw [List.length_append]; omega
  have hn : n ≤ (data.drop off).length := by rw [List.length_drop]; omega
  rw [readBytes_of_le h, readBytes_of_le hlen, List.drop_append_of_le_length (by omega),
    List.take_append_of_le_length hn]

theorem readBytes_at {a b c : List UInt8} {off n : Nat} (ha : a.length = off) (hb : b.length = n) :
    readBytes (a ++ (b ++ c)) off n = .ok b := by
  subst ha hb
  rw [readBytes_of_le (by simp only [List.length_append]; omega), List.drop_left, List.take_left]

/-- Lay `bs` down at offset `off` of the memory behind a pointer. -/
def writeBytes (data : List UInt8) (off : Nat) (bs : List UInt8) : Checked (List UInt8) :=
  if off + bs.length ≤ data.length then .ok (data.take off ++ (bs ++ data.drop (off + bs.length)))
  else .error .outOfBounds

theorem writeBytes_ok (data : List UInt8) (off : Nat) (bs : List UInt8)
    (h : off + bs.length ≤ data.length) :
    ∃ data', writeBytes data off bs = .ok data' ∧ data'.length = data.length := by
  refine ⟨_, if_pos h, ?_⟩
  simp only [List.length_append, List.length_take, List.length_drop]
  omega

theorem writeBytes_at {a b c bs : List UInt8} {off : Nat} (ha : a.length = off)
    (hb : b.length = bs.length) : writeBytes (a ++ (b ++ c)) off bs = .ok (a ++ (bs ++ c)) := by
  subst ha
  have hdrop : (a ++ (b ++ c)).drop (a.length + bs.length) = c := by
    rw [← List.drop_drop, List.drop_left, ← hb, List.drop_left]
  unfold writeBytes
  rw [if_pos (by simp only [List.length_append]; omega), List.take_left, hdrop]

theorem writeBytes_front {a bs : List UInt8} (c : List UInt8) (h : a.length = bs.length) :
    writeBytes (a ++ c) 0 bs = .ok (bs ++ c) := writeBytes_at (a := []) rfl h

/-- What C++ leaves open: the `uint64_t` a double outside its range is cast to. -/
class Host where
  castOutside : UInt64 → UInt64

def Double.toUint64 [Host] (bits : UInt64) : UInt64 :=
  match Lib.Double.truncate bits with
  | some n => n
  | none => Host.castOutside bits

theorem Double.toUint64_ofUint64 [Host] {n : UInt64} (h : n.toNat < 2 ^ 53) :
    Double.toUint64 (Lib.Double.ofUint64 n) = n := by
  unfold Double.toUint64
  rw [Lib.Double.truncate_ofUint64 h]

namespace BytesReader

def readUint8T (data : List UInt8) (off : Nat) : Checked UInt8 :=
  (readBytes data off 1).map fun bs => UInt8.ofNat (beValue bs)

def readUint16T (data : List UInt8) (off : Nat) : Checked UInt16 :=
  (readBytes data off 2).map fun bs => UInt16.ofNat (beValue bs)

def readUint24T (data : List UInt8) (off : Nat) : Checked UInt32 :=
  (readBytes data off 3).map fun bs => UInt32.ofNat (beValue bs)

def readUint32T (data : List UInt8) (off : Nat) : Checked UInt32 :=
  (readBytes data off 4).map fun bs => UInt32.ofNat (beValue bs)

/-- The eight bytes as a double, cast to `uint64_t`. -/
def readUint64T [Host] (data : List UInt8) (off : Nat) : Checked UInt64 :=
  (readBytes data off 8).map fun bs => Double.toUint64 (UInt64.ofNat (beValue bs))

/-- `memcpy` of four bytes into a host integer. -/
def copyUint32 (data : List UInt8) (off : Nat) : Checked UInt32 :=
  (readBytes data off 4).map fun bs => UInt32.ofNat (leValue bs)

end BytesReader

namespace BytesWriter

def writeUint8T (val : UInt8) : List UInt8 := beBytes 1 val.toNat
def writeUint16T (val : UInt16) : List UInt8 := beBytes 2 val.toNat
def writeUint24T (val : UInt32) : List UInt8 := beBytes 3 val.toNat
def writeUint32T (val : UInt32) : List UInt8 := beBytes 4 val.toNat

/-- `memcpy` of a host integer of two or four bytes. -/
def copyUint16 (val : UInt16) : List UInt8 := leBytes 2 val.toNat
def copyUint32 (val : UInt32) : List UInt8 := leBytes 4 val.toNat

end BytesWriter

section RoundTrip
open BytesReader BytesWriter

variable {a c : List UInt8} {off : Nat}

theorem readUint8T_write (v : UInt8) (ha : a.length = off) :
    readUint8T (a ++ (writeUint8T v ++ c)) off = .ok v := by
  have hv := v.toNat_lt
  rw [readUint8T, writeUint8T, readBytes_at ha (beBytes_length 1 v.toNat)]
  simp only [Except.map, beValue_beBytes, Nat.pow_one]
  rw [Nat.mod_eq_of_lt hv, UInt8.ofNat_toNat]

theorem readUint8T_cons (b : UInt8) (bs : List UInt8) : readUint8T (b :: bs) 0 = .ok b := by
  have h : readUint8T ([] ++ (writeUint8T b ++ bs)) 0 = .ok b := readUint8T_write b rfl
  simpa [writeUint8T, beBytes] using h

theorem readUint8T_cons_succ (b : UInt8) (bs : List UInt8) (n : Nat) :
    readUint8T (b :: bs) (n + 1) = readUint8T bs n := by
  simp only [readUint8T, readBytes, List.length_cons, List.drop_succ_cons]
  congr 1
  exact if_congr (by omega) rfl rfl

theorem readUint16T_write (v : UInt16) (ha : a.length = off) :
    readUint16T (a ++ (writeUint16T v ++ c)) off = .ok v := by
  have hv := v.toNat_lt
  rw [readUint16T, writeUint16T, readBytes_at ha (beBytes_length 2 v.toNat)]
  simp only [Except.map, beValue_beBytes]
  rw [Nat.mod_eq_of_lt (by simpa using hv), UInt16.ofNat_toNat]

theorem readUint24T_write (v : UInt32) (hv : v.toNat < 2 ^ 24) (ha : a.length = off) :
    readUint24T (a ++ (writeUint24T v ++ c)) off = .ok v := by
  rw [readUint24T, writeUint24T, readBytes_at ha (beBytes_length 3 v.toNat)]
  simp only [Except.map, beValue_beBytes]
  rw [Nat.mod_eq_of_lt (by simpa using hv), UInt32.ofNat_toNat]

theorem readUint32T_write (v : UInt32) (ha : a.length = off) :
    readUint32T (a ++ (writeUint32T v ++ c)) off = .ok v := by
  have hv := v.toNat_lt
  rw [readUint32T, writeUint32T, readBytes_at ha (beBytes_length 4 v.toNat)]
  simp only [Except.map, beValue_beBytes]
  rw [Nat.mod_eq_of_lt (by simpa using hv), UInt32.ofNat_toNat]

theorem readUint64T_bits [Host] (bits : UInt64) (ha : a.length = off) :
    readUint64T (a ++ (beBytes 8 bits.toNat ++ c)) off = .ok (Double.toUint64 bits) := by
  have hbits := bits.toNat_lt
  rw [readUint64T, readBytes_at ha (beBytes_length 8 bits.toNat)]
  simp only [Except.map, beValue_beBytes]
  rw [Nat.mod_eq_of_lt (by simpa using hbits), UInt64.ofNat_toNat]

theorem copyUint32_write (v : UInt32) (ha : a.length = off) :
    BytesReader.copyUint32 (a ++ (BytesWriter.copyUint32 v ++ c)) off = .ok v := by
  have hv := v.toNat_lt
  rw [BytesReader.copyUint32, BytesWriter.copyUint32, readBytes_at ha (leBytes_length 4 v.toNat)]
  simp only [Except.map, leValue_leBytes]
  rw [Nat.mod_eq_of_lt (by simpa using hv), UInt32.ofNat_toNat]

/-- The word whose bytes stand in the other order. -/
def byteSwap (v : UInt32) : UInt32 := UInt32.ofNat (beValue (leBytes 4 v.toNat))

theorem readUint32T_copy (v : UInt32) (ha : a.length = off) :
    readUint32T (a ++ (BytesWriter.copyUint32 v ++ c)) off = .ok (byteSwap v) := by
  rw [readUint32T, BytesWriter.copyUint32, readBytes_at ha (leBytes_length 4 v.toNat)]
  rfl

end RoundTrip
end TmmsServer
