import TmmsServer.Rtmp.AmfBounds
import TmmsServer.Rtmp.Command

/-!
# Argument lists

A command is a row of values without names. Decoded, it gives the property of
each in order, and none for a null.
-/
namespace TmmsServer
open Lib.Words BytesReader

theorem length_le_flatMap {α β : Type} (f : α → List β) {a : α} {l : List α} (h : a ∈ l) :
    (f a).length ≤ (l.flatMap f).length :=
  (List.sublist_flatten_of_mem (List.mem_map_of_mem h)).length_le

theorem field_lead {t : UInt8} {v : List UInt8} (ht : t ≠ 0) (hlen : 3 ≤ (t :: v).length) :
    field 3 (t :: v) ≠ 9 := by
  match v, hlen with
  | b₁ :: b₂ :: v, _ =>
      intro h9
      change ((0 * 256 + t.toNat) * 256 + b₁.toNat) * 256 + b₂.toNat = 9 at h9
      have hzero : t.toNat = 0 := by omega
      exact ht (UInt8.toNat_inj.mp hzero)

theorem field_encodeNumber (bits : UInt64) :
    field 3 (AMFAny.encodeNumber bits) = bits.toNat / 2 ^ 48 := by
  have hbits := bits.toNat_lt
  have hvalue : field 3 (AMFAny.encodeNumber bits) =
      (UInt8.ofNat (bits.toNat / 256 ^ 7)).toNat * 256 + (UInt8.ofNat (bits.toNat / 256 ^ 6)).toNat := by
    change ((0 * 256 + 0) * 256 + _) * 256 + _ = _
    rw [Nat.zero_mul, Nat.zero_add]
  rw [hvalue, UInt8.toNat_ofNat', UInt8.toNat_ofNat']
  omega

theorem field_encodeNumber_append (bits : UInt64) (rest : List UInt8) :
    field 3 (AMFAny.encodeNumber bits ++ rest) = field 3 (AMFAny.encodeNumber bits) :=
  congrArg beValue (List.take_append_of_le_length (Nat.le_add_left 3 6))

/-- A value of a command as the senders write it. -/
inductive AMFArgument where
  | number (bits : UInt64)
  | string (str : List UInt8)
  | null

namespace AMFArgument

def type : AMFArgument → AMFDataType
  | number _ => .number
  | string _ => .string
  | null => .null

def body : AMFArgument → List UInt8
  | number bits => beBytes 8 bits.toNat
  | string str => BytesWriter.writeUint16T (UInt16.ofNat str.length) ++ str
  | null => []

/-- The bytes `EncodeNumber` and `EncodeString` write. -/
def encode (a : AMFArgument) : List UInt8 := a.type.code :: a.body

/-- What the decoder makes of it. A number comes back through an integer. -/
def properties [Host] : AMFArgument → List AMFAny
  | number bits => [.number [] (Lib.Double.ofUint64 (Double.toUint64 bits))]
  | string str => [.string [] str]
  | null => []

/-- The length of a string fits its field, and no number begins like an end of object. -/
def Fits : AMFArgument → Prop
  | number bits => field 3 (AMFAny.encodeNumber bits) ≠ 9
  | string str => str.length < 2 ^ 16
  | null => True

instance : DecidablePred Fits
  | number bits => inferInstanceAs (Decidable (field 3 (AMFAny.encodeNumber bits) ≠ 9))
  | string str => inferInstanceAs (Decidable (str.length < 2 ^ 16))
  | null => .isTrue trivial

theorem ofCode_type (a : AMFArgument) : AMFDataType.ofCode a.type.code = a.type := by
  cases a with
  | number bits => rfl
  | string str => rfl
  | null => rfl

theorem properties_short [Host] {a : AMFArgument} (h : a.encode.length < 3) :
    a.properties = [] := by
  rw [encode, List.length_cons] at h
  cases a with
  | number bits =>
      rw [body, beBytes_length] at h
      omega
  | string str =>
      rw [body, List.length_append, BytesWriter.writeUint16T, beBytes_length] at h
      omega
  | null => rfl

theorem Fits.open {a : AMFArgument} (h : a.Fits) {rest : List UInt8}
    (hlen : 3 ≤ (a.encode ++ rest).length) : field 3 (a.encode ++ rest) ≠ 9 := by
  cases a with
  | number bits =>
      have hfront : field 3 ((number bits).encode ++ rest) = field 3 (AMFAny.encodeNumber bits) :=
        field_encodeNumber_append bits rest
      rw [hfront]
      exact h
  | string str => exact field_lead (t := AMFDataType.string.code) (by decide) hlen
  | null => exact field_lead (t := AMFDataType.null.code) (by decide) hlen

end AMFArgument

section Values
variable (name : List UInt8) {rest : List UInt8} {size : Int}

theorem AMFNumber.decode_encode [Host] (bits : UInt64) (hsize : 8 ≤ size) :
    AMFNumber.decode name (beBytes 8 bits.toNat ++ rest) size =
      .ok (8, .number name (Lib.Double.ofUint64 (Double.toUint64 bits))) := by
  have hread : readUint64T (beBytes 8 bits.toNat ++ rest) 0 = .ok (Double.toUint64 bits) :=
    readUint64T_bits (a := []) bits rfl
  rw [AMFNumber.decode, if_pos hsize, hread, ok_bind]
  rfl

variable {str : List UInt8} (hlen : str.length < 2 ^ 16)

theorem readUint16T_length :
    readUint16T (BytesWriter.writeUint16T (UInt16.ofNat str.length) ++ (str ++ rest)) 0 =
      .ok (UInt16.ofNat str.length) :=
  readUint16T_write (a := []) _ rfl

include hlen

theorem length_field : (UInt16.ofNat str.length).toNat = str.length := by
  rw [UInt16.toNat_ofNat']
  exact Nat.mod_eq_of_lt hlen

theorem decodeString_encode :
    AMFAny.decodeString (BytesWriter.writeUint16T (UInt16.ofNat str.length) ++ (str ++ rest)) = .ok str := by
  rw [AMFAny.decodeString, readUint16T_length, ok_bind, length_field hlen]
  split
  next => exact readBytes_at (beBytes_length 2 _) rfl
  next hzero =>
    rw [UInt16.lt_iff_toNat_lt, length_field hlen] at hzero
    rw [List.length_eq_zero_iff.mp (Nat.eq_zero_of_not_pos hzero)]
    rfl

theorem AMFString.decode_encode (hsize : 2 + (str.length : Int) ≤ size) :
    AMFString.decode name (BytesWriter.writeUint16T (UInt16.ofNat str.length) ++ (str ++ rest)) size =
      .ok (2 + str.length, .string name str) := by
  rw [AMFString.decode, if_neg (by omega), readUint16T_length, ok_bind,
    if_neg (by rw [length_field hlen]; omega), decodeString_encode hlen]
  rfl

end Values

/-- A name that is not empty does not begin like an end of object. -/
theorem encodeName_open {name : List UInt8} (hname : name ≠ []) (hlt : name.length < 2 ^ 16)
    (v : List UInt8) : field 3 (AMFAny.encodeName name ++ v) ≠ 9 := by
  obtain ⟨c, cs, hcons⟩ := List.exists_cons_of_ne_nil hname
  have hvalue : beValue (BytesWriter.writeUint16T (UInt16.ofNat name.length)) = name.length := by
    rw [BytesWriter.writeUint16T, beValue_beBytes, length_field hlt]
    exact Nat.mod_eq_of_lt hlt
  have hbytes : AMFAny.encodeName name ++ v =
      BytesWriter.writeUint16T (UInt16.ofNat name.length) ++ c :: (cs ++ v) := by
    rw [AMFAny.encodeName, hcons]
    simp only [List.append_assoc, List.cons_append]
  have hfront : (AMFAny.encodeName name ++ v).take 3 =
      BytesWriter.writeUint16T (UInt16.ofNat name.length) ++ [c] := by
    rw [hbytes]
    rfl
  have hfield : field 3 (AMFAny.encodeName name ++ v) = name.length * 256 + c.toNat := by
    rw [field, hfront, beValue, List.foldl_append]
    change beValue _ * 256 + c.toNat = _
    rw [hvalue]
  rw [hfield, hcons, List.length_cons]
  omega

theorem take_front (c : Cursor) (p : AMFAny) {front rest : List UInt8}
    (h : c.data = front ++ rest) :
    ∃ c' : Cursor, c.take (front.length, p) = .next c' ∧ c'.data = rest ∧
      c'.parsed = c.parsed + front.length ∧
      c'.properties = c.properties ++ [p] := by
  refine ⟨(c.advance front.length).emplace p, if_neg (by dsimp only; omega), ?_, rfl, rfl⟩
  change (c.advance front.length).data = rest
  rw [advance_data, h, List.drop_left]

section Loop
variable [Host]

/-- The switch on the type of an argument. -/
theorem decodeValue_argument (decode once : List UInt8 → Int → Checked Decoded) {c : Cursor}
    {a : AMFArgument}
    {rest : List UInt8} {size : Int} (hfits : a.Fits) (h : c.data = a.body ++ rest)
    (hsize : c.parsed + a.body.length ≤ size) :
    ∃ c' : Cursor, c.decodeValue decode once [] a.type size = .ok (.next c') ∧ c'.data = rest ∧
      c'.parsed = c.parsed + a.body.length ∧ c'.properties = c.properties ++ a.properties := by
  cases a with
  | number bits =>
      obtain ⟨c', htake, hc'⟩ := take_front c (.number [] (Lib.Double.ofUint64 (Double.toUint64 bits))) h
      refine ⟨c', ?_, hc'⟩
      rw [AMFArgument.body, beBytes_length] at hsize
      change (AMFNumber.decode [] c.data (size - c.parsed)).map c.take = _
      rw [h, AMFArgument.body, AMFNumber.decode_encode [] bits (by omega), map_ok, ← htake,
        AMFArgument.body, beBytes_length]
      rfl
  | string str =>
      obtain ⟨c', htake, hc'⟩ := take_front c (.string [] str) h
      have hbody : (AMFArgument.string str).body.length = 2 + str.length := by
        rw [AMFArgument.body, List.length_append, BytesWriter.writeUint16T, beBytes_length]
      refine ⟨c', ?_, hc'⟩
      rw [hbody] at hsize htake
      change (AMFString.decode [] c.data (size - c.parsed)).map c.take = _
      rw [h, AMFArgument.body, List.append_assoc, AMFString.decode_encode [] hfits (by omega),
        map_ok, ← htake]
      rfl
  | null =>
      refine ⟨c, rfl, h, (Int.add_zero _).symm, (List.append_nil _).symm⟩

/-- The pass over an argument. -/
theorem decodeProperty_argument (fuel : Nat) {c : Cursor} {a : AMFArgument} {rest : List UInt8}
    (hfits : a.Fits) (h : c.data = a.encode ++ rest) :
    ∃ c' : Cursor, AMFObject.decodeProperty (fuel + 1) false (c.parsed + c.data.length) c =
      .ok (.next c') ∧
      c'.data = rest ∧ c'.parsed = c.parsed + a.encode.length ∧ c'.properties = c.properties ++ a.properties := by
  have hdata : c.data = a.type.code :: (a.body ++ rest) := h
  have hone : (c.advance 1).data = a.body ++ rest := by
    change c.data.drop 1 = _
    rw [hdata]
    rfl
  have hname : c.readName false = .ok ([], c) := rfl
  have htype : readUint8T c.data 0 = .ok a.type.code := by
    rw [hdata]
    exact readUint8T_cons _ _
  have hsize : (c.advance 1).parsed + a.body.length ≤ c.parsed + c.data.length := by
    change c.parsed + 1 + _ ≤ _
    rw [hdata, List.length_cons, List.length_append]
    omega
  obtain ⟨c', hvalue, hrest, hparsed, hproperties⟩ :=
    decodeValue_argument (objectDecoder fuel) (onceDecoder fuel) hfits hone hsize
  refine ⟨c', ?_, hrest, ?_, hproperties⟩
  · rw [AMFObject.decodeProperty, hname, ok_bind]
    dsimp only
    rw [htype, ok_bind, AMFArgument.ofCode_type]
    exact hvalue
  · rw [hparsed, AMFArgument.encode, List.length_cons]
    change c.parsed + 1 + _ = _
    omega

end Loop
end TmmsServer
