import TmmsServer.Rtmp.AmfArguments

/-!
# Trees of values

What the encoders write, objects nested to any depth, is decoded to the same tree.
-/
namespace TmmsServer
open Lib.Words BytesReader

/-- A string whose length fits its field. -/
abbrev AMFText := { str : List UInt8 // str.length < 2 ^ 16 }

/-- The name of a field. -/
abbrev AMFFieldName := { name : List UInt8 // name ≠ [] ∧ name.length < 2 ^ 16 }

/-- A number that is an integer and a double as well. -/
abbrev AMFWhole := { n : UInt64 // n.toNat < 2 ^ 53 }

mutual

/-- A value as the encoders write it. -/
inductive AMFTree where
  | number (n : AMFWhole)
  | string (str : AMFText)
  | boolean (b : Bool)
  | object (fields : AMFFields)

/-- The fields of an object. -/
inductive AMFFields where
  | nil
  | cons (name : AMFFieldName) (value : AMFTree) (fields : AMFFields)

end

mutual

/-- `EncodeNumber`, `EncodeString` and `EncodeBoolean`; an object is its type, fields and end. -/
def AMFTree.encode : AMFTree → List UInt8
  | .number n => AMFAny.encodeNumber (whole n.1)
  | .string str => AMFAny.encodeString str.1
  | .boolean b => AMFAny.encodeBoolean b
  | .object fields => amfObject ++ (fields.encode ++ amfObjectEnd)

/-- `EncodeName` and the value: what the `EncodeNamed` functions write. -/
def AMFFields.encode : AMFFields → List UInt8
  | .nil => []
  | .cons name value fields => AMFAny.encodeName name.1 ++ (value.encode ++ fields.encode)

end

mutual

/-- The tree as `AMFAny` values. -/
def AMFTree.toAny (name : List UInt8) : AMFTree → AMFAny
  | .number n => .number name (whole n.1)
  | .string str => .string name str.1
  | .boolean b => .boolean name b
  | .object fields => .object name fields.toAny

def AMFFields.toAny : AMFFields → List AMFAny
  | .nil => []
  | .cons name value fields => value.toAny name.1 :: fields.toAny

end

namespace AMFTree

def type : AMFTree → AMFDataType
  | number _ => .number
  | string _ => .string
  | boolean _ => .boolean
  | object _ => .object

/-- The bytes behind the type. -/
def body : AMFTree → List UInt8
  | number n => beBytes 8 (whole n.1).toNat
  | string str => BytesWriter.writeUint16T (UInt16.ofNat str.1.length) ++ str.1
  | boolean b => [if b then 1 else 0]
  | object fields => fields.encode ++ amfObjectEnd

theorem encode_eq (t : AMFTree) : t.encode = t.type.code :: t.body := by
  cases t with
  | number n => rfl
  | string str => rfl
  | boolean b => rfl
  | object fields => rfl

theorem ofCode_type (t : AMFTree) : AMFDataType.ofCode t.type.code = t.type := by
  cases t with
  | number n => rfl
  | string str => rfl
  | boolean b => rfl
  | object fields => rfl

end AMFTree

section Values
variable [Host] (name : List UInt8)

theorem ValueYields.number (bits : UInt64) (rest : List UInt8) :
    ValueYields name .number (beBytes 8 bits.toNat ++ rest) (.behind 8)
      [.number name (Lib.Double.ofUint64 (Double.toUint64 bits))] := by
  rintro fuel c hc -
  have hlen : 8 ≤ c.data.length := by
    rw [hc, List.length_append, beBytes_length]
    omega
  rw [Cursor.decodeValue, left_size, hc, AMFNumber.decode_encode name bits (by rw [← hc]; omega),
    map_ok]
  exact congrArg Except.ok (Cursor.take_leave c _ (Extent.behind_ne_closed 8))

theorem ValueYields.string {str : List UInt8} (hlen : str.length < 2 ^ 16) (rest : List UInt8) :
    ValueYields name .string (BytesWriter.writeUint16T (UInt16.ofNat str.length) ++ (str ++ rest))
      (.behind (2 + str.length)) [.string name str] := by
  rintro fuel c hc -
  have hsize : 2 + str.length ≤ c.data.length := by
    rw [hc, List.length_append, List.length_append, BytesWriter.writeUint16T, beBytes_length]
    omega
  have hret : Extent.ret 0 (.behind (2 + str.length)) = 2 + (str.length : Int) := by
    rw [Extent.ret]
    omega
  have htake := Cursor.take_leave c (.string name str) (Extent.behind_ne_closed (2 + str.length))
  rw [hret] at htake
  rw [Cursor.decodeValue, left_size, hc, AMFString.decode_encode name hlen (by rw [← hc]; omega),
    map_ok]
  exact congrArg Except.ok htake

theorem ValueYields.boolean (b : Bool) (rest : List UInt8) :
    ValueYields name .boolean ((if b then 1 else 0) :: rest) (.behind 1) [.boolean name b] := by
  rintro fuel c hc -
  have hone : (1 : Int) ≤ (((if b then 1 else 0) :: rest : List UInt8)).length := by
    rw [List.length_cons]
    omega
  rw [Cursor.decodeValue, left_size, hc, AMFBoolean.decode, if_pos hone, readUint8T_cons, ok_bind]
  have htake := Cursor.take_leave c (.boolean name b) (Extent.behind_ne_closed 1)
  cases b with
  | true => exact congrArg Except.ok htake
  | false => exact congrArg Except.ok htake

theorem ValueYields.null (rest : List UInt8) : ValueYields name .null rest (.behind 0) [] := by
  rintro fuel c - -
  change Except.ok (Flow.next c) = .ok (.next ⟨c.data, c.parsed + (0 : Int), c.properties ++ []⟩)
  rw [List.append_nil, Int.add_zero]

end Values

section Properties
variable [Host] {v : List UInt8} {ps : List AMFAny} {type : AMFDataType} {n : Nat}

theorem PropertyYields.unnamed (htype : AMFDataType.ofCode type.code = type)
    (h : ValueYields [] type v (.behind n) ps) :
    PropertyYields false (type.code :: v) (.behind (1 + n)) ps := by
  have hvalue : ValueYields (nameText false (type.code :: v)) (.ofCode type.code) v (.behind n) ps := by
    rw [htype]
    exact h
  exact PropertyYields.of_value (k := 0) rfl rfl hvalue

/-- A value behind its name. -/
theorem PropertyYields.named (name : AMFFieldName) (htype : AMFDataType.ofCode type.code = type)
    (h : ValueYields name.1 type v (.behind n) ps) :
    PropertyYields true (AMFAny.encodeName name.1 ++ type.code :: v)
      (.behind ((AMFAny.encodeName name.1).length + 1 + n)) ps := by
  obtain ⟨name, hne, hlt⟩ := name
  have hbytes : AMFAny.encodeName name ++ type.code :: v =
      BytesWriter.writeUint16T (UInt16.ofNat name.length) ++ (name ++ type.code :: v) :=
    List.append_assoc _ _ _
  have htwo : (BytesWriter.writeUint16T (UInt16.ofNat name.length)).length = 2 := beBytes_length 2 _
  have hlen : (AMFAny.encodeName name).length = 2 + name.length := by
    rw [AMFAny.encodeName, List.length_append, htwo]
  have hfield : field 2 (AMFAny.encodeName name ++ type.code :: v) = name.length := by
    rw [hbytes, field, List.take_left' htwo, BytesWriter.writeUint16T, beValue_beBytes,
      length_field hlt]
    exact Nat.mod_eq_of_lt hlt
  have hne0 : name.length ≠ 0 := fun h0 => hne (List.eq_nil_of_length_eq_zero h0)
  have hname : nameSize true (AMFAny.encodeName name ++ type.code :: v) =
      some (2 + name.length) := by
    rw [nameSize, if_neg Bool.false_ne_true.symm, hfield, if_pos, if_neg hne0]
    rw [List.length_append, hlen]
    omega
  have htext : nameText true (AMFAny.encodeName name ++ type.code :: v) = name := by
    rw [nameText, if_pos rfl, hfield, hbytes, List.drop_left' htwo, List.take_left]
  have hvalue : ValueYields (nameText true (AMFAny.encodeName name ++ type.code :: v))
      (.ofCode type.code) v (.behind n) ps := by
    rw [htype, htext]
    exact h
  have hbehind : (AMFAny.encodeName name ++ type.code :: v).drop (2 + name.length) =
      type.code :: v :=
    List.drop_left' hlen
  rw [hlen]
  exact PropertyYields.of_value hname hbehind hvalue

end Properties

section Trees
variable [Host]

mutual

/-- A value gives its tree, whatever comes behind it: by induction on the tree, with the fields of
an object beside it. -/
theorem AMFTree.yields (name rest : List UInt8) : ∀ t : AMFTree,
    ValueYields name t.type (t.body ++ rest) (.behind t.body.length) [t.toAny name]
  | .number n => by
      have hvalue := ValueYields.number name (whole n.1) rest
      rw [Double.toUint64_ofUint64 n.2] at hvalue
      rw [AMFTree.body, beBytes_length]
      exact hvalue
  | .string str => by
      have hvalue := ValueYields.string name str.2 rest
      rw [AMFTree.body, List.append_assoc, List.length_append, BytesWriter.writeUint16T,
        beBytes_length]
      exact hvalue
  | .boolean b => ValueYields.boolean name b rest
  | .object fields => by
      have hfields := (AMFFields.yields rest fields).value nofun name
      rw [AMFTree.body, List.append_assoc, List.length_append]
      exact hfields

/-- The fields of an object up to its end. -/
theorem AMFFields.yields (rest : List UInt8) : ∀ fields : AMFFields,
    ObjectYields true (fields.encode ++ (amfObjectEnd ++ rest)) (.behind (fields.encode.length + 3)) fields.toAny
  | .nil => ObjectYields.marker (Nat.le_add_left 3 _) rfl
  | .cons name value fields => by
      have hrest := AMFFields.yields rest fields
      have hvalue := AMFTree.yields name.1 (fields.encode ++ (amfObjectEnd ++ rest)) value
      have hfirst := PropertyYields.named name value.ofCode_type hvalue
      have hbytes : (AMFFields.cons name value fields).encode ++ (amfObjectEnd ++ rest) =
          (AMFAny.encodeName name.1 ++ value.encode) ++ (fields.encode ++ (amfObjectEnd ++ rest)) := by
        rw [AMFFields.encode, List.append_assoc, List.append_assoc, List.append_assoc]
      have hnamed : (AMFAny.encodeName name.1 ++ value.encode) ++ (fields.encode ++ (amfObjectEnd ++ rest)) =
          AMFAny.encodeName name.1 ++ value.type.code ::
            (value.body ++ (fields.encode ++ (amfObjectEnd ++ rest))) := by
        rw [value.encode_eq, List.append_assoc, List.cons_append]
      have hlen : (AMFAny.encodeName name.1 ++ value.encode).length =
          (AMFAny.encodeName name.1).length + 1 + value.body.length := by
        rw [value.encode_eq, List.length_append, List.length_cons]
        omega
      rw [← hnamed, ← hlen] at hfirst
      have hopen : field 3 ((AMFAny.encodeName name.1 ++ value.encode) ++
          (fields.encode ++ (amfObjectEnd ++ rest))) ≠ 9 := by
        rw [List.append_assoc]
        exact encodeName_open name.2.1 name.2.2 _
      have hthree : 3 ≤ (fields.encode ++ (amfObjectEnd ++ rest)).length := by
        rw [List.length_append, List.length_append]
        exact Nat.le_trans (Nat.le_add_right 3 _) (Nat.le_add_left _ _)
      have hsum : ((AMFAny.encodeName name.1 ++ value.encode) ++
          (fields.encode ++ (amfObjectEnd ++ rest))).length =
          (AMFAny.encodeName name.1 ++ value.encode).length + (fields.encode ++ (amfObjectEnd ++ rest)).length :=
        List.length_append
      rw [hbytes, AMFFields.toAny, AMFFields.encode]
      have htotal : (AMFAny.encodeName name.1 ++ (value.encode ++ fields.encode)).length + 3 =
          (AMFAny.encodeName name.1 ++ value.encode).length + (fields.encode.length + 3) := by
        simp only [List.length_append]
        omega
      rw [htotal]
      exact ObjectYields.pass (by rw [hsum]; omega) hopen hfirst (by rw [hlen]; omega)
        (by rw [hsum]; omega) (by rw [List.drop_left]; exact hrest)

end

/-- The values of a message that are not inside an object: none of them is a boolean. -/
abbrev TopValue := { t : AMFTree // ∀ b, t ≠ .boolean b }

omit [Host] in
theorem AMFTree.encode_open (t : TopValue) (rest : List UInt8) :
    3 ≤ t.1.encode.length ∧ field 3 (t.1.encode ++ rest) ≠ 9 := by
  obtain ⟨t, ht⟩ := t
  rw [t.encode_eq, List.length_cons, List.cons_append]
  cases t with
  | boolean b => exact absurd rfl (ht b)
  | string str =>
      have hlen : 2 ≤ (AMFTree.string str).body.length := by
        rw [body, List.length_append, BytesWriter.writeUint16T, beBytes_length]
        exact Nat.le_add_right 2 _
      refine ⟨Nat.succ_le_succ hlen, field_lead (t := AMFDataType.string.code) (by decide) ?_⟩
      rw [List.length_cons, List.length_append]
      omega
  | object fields =>
      have hlen : 3 ≤ (AMFTree.object fields).body.length := by
        rw [body, List.length_append]
        exact Nat.le_add_left 3 _
      refine ⟨by omega, field_lead (t := AMFDataType.object.code) (by decide) ?_⟩
      rw [List.length_cons, List.length_append]
      omega
  | number n =>
      have hlen : (AMFTree.number n).body.length = 8 := beBytes_length 8 _
      have hfront := Lib.Double.ofUint64_front n.2
      refine ⟨by omega, ?_⟩
      change field 3 (AMFAny.encodeNumber (whole n.1) ++ rest) ≠ 9
      rw [field_encodeNumber_append, field_encodeNumber]
      change (Lib.Double.ofUint64 n.1).toNat / 2 ^ 48 ≠ 9
      omega

theorem values_yield (values : List TopValue) :
    ObjectYields false (values.flatMap (·.1.encode)) (.behind (values.flatMap (·.1.encode)).length)
      (values.map (·.1.toAny [])) := by
  induction values with
  | nil => exact .short (by decide)
  | cons t values ih =>
      obtain ⟨hlen, hopen⟩ := AMFTree.encode_open t (values.flatMap (·.1.encode))
      have hvalue := AMFTree.yields [] (values.flatMap (·.1.encode)) t.1
      have hfirst := PropertyYields.unnamed t.1.ofCode_type hvalue
      rw [← List.cons_append, ← t.1.encode_eq, Nat.add_comm, ← List.length_cons,
        ← t.1.encode_eq] at hfirst
      have hpass := ObjectYields.pass (by rw [List.length_append]; omega) hopen hfirst (by omega)
        (by rw [List.length_append]; omega) (by rw [List.drop_left]; exact ih)
      rw [List.flatMap_cons, List.map_cons, List.length_append]
      exact hpass

/-- What the encoders write is decoded to the same values, and to its last byte. -/
theorem AMFObject.decode_values (values : List TopValue) :
    AMFObject.decode (values.flatMap (·.1.encode)) (values.flatMap (·.1.encode)).length false =
      .ok ⟨(values.flatMap (·.1.encode)).length, values.map (·.1.toAny [])⟩ := by
  have hret : Extent.ret 0 (.behind (values.flatMap (·.1.encode)).length) =
      (values.flatMap (·.1.encode)).length := Int.zero_add _
  rw [(values_yield values).decode, hret]

end Trees
end TmmsServer
