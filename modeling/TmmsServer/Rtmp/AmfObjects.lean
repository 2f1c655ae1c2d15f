import TmmsServer.Rtmp.AmfArguments
import TmmsServer.Rtmp.CommandSafety

/-!
# Objects in a command

The command objects the senders write are rows of named scalars up to an end
marker. Decoded among the arguments, each gives one property that holds its
fields.
-/
namespace TmmsServer
open Lib.Words BytesReader

/-- A field of an object as the senders write it. -/
inductive AMFField where
  | number (name : List UInt8) (bits : UInt64)
  | string (name str : List UInt8)
  | boolean (name : List UInt8) (b : Bool)

namespace AMFField

def name : AMFField → List UInt8
  | number name _ | string name _ | boolean name _ => name

def type : AMFField → AMFDataType
  | number _ _ => .number
  | string _ _ => .string
  | boolean _ _ => .boolean

def body : AMFField → List UInt8
  | number _ bits => beBytes 8 bits.toNat
  | string _ str => BytesWriter.writeUint16T (UInt16.ofNat str.length) ++ str
  | boolean _ b => [if b then 1 else 0]

/-- The bytes of `EncodeNamedNumber`, `EncodeNamedString` and `EncodeNamedBoolean`. -/
def encode (f : AMFField) : List UInt8 := AMFAny.encodeName f.name ++ f.type.code :: f.body

def property [Host] : AMFField → AMFAny
  | number name bits => .number name (Lib.Double.ofUint64 (Double.toUint64 bits))
  | string name str => .string name str
  | boolean name b => .boolean name b

/-- The length of a string fits its field. -/
def BodyFits : AMFField → Prop
  | string _ str => str.length < 2 ^ 16
  | _ => True

instance : DecidablePred BodyFits
  | number _ _ => .isTrue trivial
  | string _ str => inferInstanceAs (Decidable (str.length < 2 ^ 16))
  | boolean _ _ => .isTrue trivial

/-- There is a name, and the lengths fit their fields. -/
structure Fits (f : AMFField) : Prop where
  named : f.name ≠ []
  name_lt : f.name.length < 2 ^ 16
  body : f.BodyFits

instance : DecidablePred Fits := fun f =>
  decidable_of_iff (f.name ≠ [] ∧ f.name.length < 2 ^ 16 ∧ f.BodyFits)
    ⟨fun h => ⟨h.1, h.2.1, h.2.2⟩, fun h => ⟨h.named, h.name_lt, h.body⟩⟩

theorem ofCode_type (f : AMFField) : AMFDataType.ofCode f.type.code = f.type := by
  cases f with
  | number name bits => rfl
  | string name str => rfl
  | boolean name b => rfl

theorem encode_length (f : AMFField) : f.encode.length = 3 + f.name.length + f.body.length := by
  rw [encode, AMFAny.encodeName, BytesWriter.writeUint16T, List.length_append, List.length_append,
    beBytes_length, List.length_cons]
  omega

theorem Fits.open {f : AMFField} (h : f.Fits) (rest : List UInt8) :
    field 3 (f.encode ++ rest) ≠ 9 := by
  rw [encode, List.append_assoc]
  exact encodeName_open h.named h.name_lt _

end AMFField

/-- A part of a command: a value without name, or an object. -/
inductive AMFPart where
  | argument (a : AMFArgument)
  | object (fields : List AMFField)

namespace AMFPart

def encode : AMFPart → List UInt8
  | argument a => a.encode
  | object fields => amfObject ++ (fields.flatMap AMFField.encode ++ amfObjectEnd)

def properties [Host] : AMFPart → List AMFAny
  | argument a => a.properties
  | object fields => [.object [] (fields.map AMFField.property)]

def Fits : AMFPart → Prop
  | argument a => a.Fits
  | object fields => ∀ f ∈ fields, f.Fits

instance : DecidablePred Fits
  | argument a => inferInstanceAs (Decidable a.Fits)
  | object fields => inferInstanceAs (Decidable (∀ f ∈ fields, f.Fits))

theorem object_length (fields : List AMFField) :
    (object fields).encode.length = (fields.flatMap AMFField.encode).length + 4 := by
  rw [encode, List.length_append, List.length_append]
  change 1 + (_ + 3) = _
  omega

theorem encode_pos (p : AMFPart) : 0 < p.encode.length := by
  cases p with
  | argument a => exact Nat.zero_lt_succ _
  | object fields =>
      rw [object_length]
      omega

theorem properties_short [Host] {p : AMFPart} (h : p.encode.length < 3) : p.properties = [] := by
  cases p with
  | argument a => exact AMFArgument.properties_short h
  | object fields =>
      rw [object_length] at h
      omega

theorem Fits.open {p : AMFPart} (h : p.Fits) {rest : List UInt8}
    (hlen : 3 ≤ (p.encode ++ rest).length) : field 3 (p.encode ++ rest) ≠ 9 := by
  cases p with
  | argument a => exact AMFArgument.Fits.open h hlen
  | object fields => exact field_lead (t := AMFDataType.object.code) (by decide) hlen

theorem string_length_le {parts : List AMFPart} {fields : List AMFField} {name str : List UInt8}
    (hpart : .object fields ∈ parts) (hfield : .string name str ∈ fields) :
    str.length ≤ (parts.flatMap encode).length := by
  have hobject := length_le_flatMap encode hpart
  have hstring := length_le_flatMap AMFField.encode hfield
  rw [object_length] at hobject
  rw [AMFField.encode_length, AMFField.body, List.length_append] at hstring
  omega

end AMFPart

section Loop
variable [Host]

/-- The switch on the type of a field. -/
theorem decodeValue_field (decode once : List UInt8 → Int → Checked Decoded) {c : Cursor}
    {f : AMFField} {rest : List UInt8} {size : Int} (hfits : f.Fits) (h : c.data = f.body ++ rest)
    (hsize : c.parsed + f.body.length ≤ size) :
    ∃ c' : Cursor, c.decodeValue decode once f.name f.type size = .ok (.next c') ∧ c'.data = rest ∧
      c'.parsed = c.parsed + f.body.length ∧ c'.properties = c.properties ++ [f.property] := by
  obtain ⟨c', htake, hc'⟩ := take_front c f.property h
  refine ⟨c', ?_, hc'⟩
  rw [← htake]
  cases f with
  | number name bits =>
      rw [AMFField.body, beBytes_length] at hsize ⊢
      change (AMFNumber.decode name c.data (size - c.parsed)).map c.take = _
      rw [h, AMFField.body, AMFNumber.decode_encode name bits (by omega)]
      rfl
  | string name str =>
      have hbody : (AMFField.string name str).body.length = 2 + str.length := by
        rw [AMFField.body, List.length_append, BytesWriter.writeUint16T, beBytes_length]
      rw [hbody] at hsize ⊢
      change (AMFString.decode name c.data (size - c.parsed)).map c.take = _
      rw [h, AMFField.body, List.append_assoc,
        AMFString.decode_encode name hfits.body (by omega)]
      rfl
  | boolean name b =>
      have hone : (1 : Int) ≤ size - c.parsed := by
        change c.parsed + 1 ≤ size at hsize
        omega
      change (AMFBoolean.decode name c.data (size - c.parsed)).map c.take = _
      rw [h, AMFBoolean.decode, if_pos hone]
      change (readUint8T ((if b then 1 else 0) :: rest) 0 >>= _).map c.take = _
      rw [readUint8T_cons, ok_bind]
      cases b with
      | true => rfl
      | false => rfl

/-- The pass over a field. -/
theorem decodeProperty_field (fuel : Nat) {c : Cursor} {f : AMFField} {rest : List UInt8}
    (hfits : f.Fits) (h : c.data = f.encode ++ rest) :
    ∃ c' : Cursor, AMFObject.decodeProperty (fuel + 1) true (c.parsed + c.data.length) c =
      .ok (.next c') ∧
      c'.data = rest ∧ c'.parsed = c.parsed + f.encode.length ∧ c'.properties = c.properties ++ [f.property] := by
  have hbytes : c.data = AMFAny.encodeName f.name ++ f.type.code :: (f.body ++ rest) := by
    rw [h, AMFField.encode, List.append_assoc, List.cons_append]
  have hnamed : (AMFAny.encodeName f.name).length = f.name.length + 2 := by
    rw [AMFAny.encodeName, List.length_append, BytesWriter.writeUint16T, beBytes_length,
      Nat.add_comm]
  have hstring : AMFAny.decodeString c.data = .ok f.name := by
    rw [hbytes, AMFAny.encodeName, List.append_assoc]
    exact decodeString_encode hfits.name_lt
  have hname : c.readName true = .ok (f.name, c.advance (f.name.length + 2)) := by
    rw [Cursor.readName, if_pos rfl, hstring, ok_bind, if_neg hfits.named]
    rfl
  have hbehind : (c.advance (f.name.length + 2)).data = f.type.code :: (f.body ++ rest) := by
    change (c.advance (f.name.length + 2 : Nat)).data = _
    rw [advance_data, hbytes, ← hnamed, List.drop_left]
  have hvalueAt : ((c.advance (f.name.length + 2)).advance 1).data = f.body ++ rest := by
    change (c.advance (f.name.length + 2)).data.drop 1 = _
    rw [hbehind]
    rfl
  have hparsed : ((c.advance (f.name.length + 2)).advance 1).parsed =
      c.parsed + (f.name.length + 2) + 1 := rfl
  have hlen := f.encode_length
  have hsize : ((c.advance (f.name.length + 2)).advance 1).parsed + f.body.length ≤
      c.parsed + c.data.length := by
    rw [hparsed, h, List.length_append]
    omega
  obtain ⟨c', hvalue, hrest, hparsed', hproperties⟩ :=
    decodeValue_field (objectDecoder fuel) (onceDecoder fuel) hfits hvalueAt hsize
  refine ⟨c', ?_, hrest, ?_, hproperties⟩
  · rw [AMFObject.decodeProperty, hname, ok_bind]
    dsimp only
    rw [hbehind, readUint8T_cons, ok_bind, AMFField.ofCode_type]
    exact hvalue
  · rw [hparsed', hparsed, hlen]
    omega

/-- The loop over the fields of an object, by induction on them, up to the end marker. -/
theorem decodeLoop_fields (fields : List AMFField) (rest : List UInt8) (fuel : Nat) (c : Cursor)
    (hfits : ∀ f ∈ fields, f.Fits) (hdata : c.data = fields.flatMap AMFField.encode ++ (amfObjectEnd ++ rest))
    (hfuel : fields.length < fuel) :
    AMFObject.decodeLoop fuel true (c.parsed + c.data.length) c =
      .ok ⟨c.parsed + ((fields.flatMap AMFField.encode).length + 3 : Nat),
        c.properties ++ fields.map AMFField.property⟩ := by
  induction fields generalizing fuel c with
  | nil =>
      obtain ⟨fuel, rfl⟩ := Nat.exists_eq_add_of_lt hfuel
      have hend : c.data = amfObjectEnd ++ rest := hdata
      rw [decodeLoop_marker (by rw [hend]; exact Nat.le_add_left 3 _) (by rw [hend]; rfl),
        List.map_nil, List.append_nil]
      rfl
  | cons f fields ih =>
      obtain ⟨fuel, rfl⟩ := Nat.exists_eq_add_of_lt hfuel
      have hf := hfits f List.mem_cons_self
      rw [List.flatMap_cons, List.append_assoc] at hdata
      have hlen : 3 ≤ c.data.length := by
        rw [hdata, List.length_append, f.encode_length]
        omega
      have hopen : field 3 c.data ≠ 9 := by
        rw [hdata]
        exact hf.open _
      obtain ⟨c', hpass, hrest, hparsed, hproperties⟩ :=
        decodeProperty_field (fields.length + fuel) hf hdata
      have hsize : c'.parsed + c'.data.length = c.parsed + c.data.length := by
        rw [hdata, hrest, hparsed, @List.length_append _ f.encode]
        omega
      have hloop := ih (fields.length + fuel + 1) c' (fun f hmem => hfits f (List.mem_cons_of_mem _ hmem)) hrest
        (by omega)
      have hfuel' : (f :: fields).length + fuel + 1 = fields.length + fuel + 1 + 1 := by
        rw [List.length_cons]
        omega
      have hbytes : c'.parsed + ((fields.flatMap AMFField.encode).length + 3 : Nat) =
          c.parsed + ((f.encode ++ fields.flatMap AMFField.encode).length + 3 : Nat) := by
        rw [hparsed, List.length_append]
        omega
      rw [hfuel', decodeLoop_pass hlen hopen, hpass, ok_bind, ← hsize]
      dsimp only
      rw [hloop, hproperties, List.flatMap_cons, hbytes, List.map_cons, List.append_assoc]
      rfl

/-- The pass over a part of a command; the fuel left is enough for the fields inside. -/
theorem decodeProperty_part (fuel : Nat) {c : Cursor} {p : AMFPart} {rest : List UInt8}
    (hfits : p.Fits) (h : c.data = p.encode ++ rest) (hfuel : p.encode.length ≤ fuel + 1) :
    ∃ c' : Cursor, AMFObject.decodeProperty (fuel + 1) false (c.parsed + c.data.length) c =
      .ok (.next c') ∧
      c'.data = rest ∧ c'.parsed = c.parsed + p.encode.length ∧ c'.properties = c.properties ++ p.properties := by
  cases p with
  | argument a => exact decodeProperty_argument fuel hfits h
  | object fields =>
      rw [AMFPart.object_length] at hfuel ⊢
      have hcount : fields.length ≤ (fields.flatMap AMFField.encode).length := by
        clear hfits h hfuel
        induction fields with
        | nil => exact Nat.zero_le _
        | cons f fields ih =>
            rw [List.flatMap_cons, List.length_append, f.encode_length, List.length_cons]
            omega
      have hdata : (c.advance 1).data = fields.flatMap AMFField.encode ++ (amfObjectEnd ++ rest) := by
        change c.data.drop 1 = _
        rw [h, AMFPart.encode, List.append_assoc, List.append_assoc]
        rfl
      have hname : c.readName false = .ok ([], c) := rfl
      have htype : readUint8T c.data 0 = .ok AMFDataType.object.code := by
        rw [h]
        exact readUint8T_cons _ _
      have hone : 1 ≤ c.data.length := by
        rw [h, List.length_append, AMFPart.object_length]
        omega
      have hsize : (c.advance 1).parsed + (c.advance 1).data.length = c.parsed + c.data.length :=
        advance_size hone
      have hobject : objectDecoder fuel (c.advance 1).data (c.advance 1).data.length =
          .ok ⟨((fields.flatMap AMFField.encode).length + 3 : Nat), fields.map AMFField.property⟩ := by
        have hloop := decodeLoop_fields fields rest fuel { data := (c.advance 1).data } hfits hdata (by omega)
        rw [start_size] at hloop
        refine hloop.trans ?_
        change Except.ok (Decoded.mk (0 + _) ([] ++ _)) = _
        rw [Int.zero_add, List.nil_append]
      have hfront : (c.advance 1).data =
          (fields.flatMap AMFField.encode ++ amfObjectEnd) ++ rest := by
        rw [hdata, List.append_assoc]
      obtain ⟨c', htake, hrest, hparsed, hproperties⟩ :=
        take_front (c.advance 1) (.object [] (fields.map AMFField.property)) hfront
      have hlen : (fields.flatMap AMFField.encode ++ amfObjectEnd).length =
          (fields.flatMap AMFField.encode).length + 3 :=
        List.length_append
      refine ⟨c', ?_, hrest, ?_, hproperties⟩
      · rw [AMFObject.decodeProperty, hname, ok_bind]
        dsimp only
        rw [htype, ok_bind, ← hsize]
        change Cursor.decodeValue (c.advance 1) (objectDecoder fuel) (onceDecoder fuel) [] .object _ = _
        rw [decodeValue_object, hobject, map_ok, ← htake, hlen]
      · rw [hparsed, hlen]
        change c.parsed + 1 + _ = _
        omega

theorem parts_short {parts : List AMFPart} (h : (parts.flatMap AMFPart.encode).length < 3) :
    parts.flatMap AMFPart.properties = [] := by
  rw [List.flatMap_eq_nil_iff]
  intro p hp
  apply AMFPart.properties_short
  exact Nat.lt_of_le_of_lt (length_le_flatMap AMFPart.encode hp) h

/-- The loop over the parts that are left, by induction on them. -/
theorem decodeLoop_parts (parts : List AMFPart) (fuel : Nat) (c : Cursor)
    (hfits : ∀ p ∈ parts, p.Fits)
    (hdata : c.data = parts.flatMap AMFPart.encode) (hfuel : c.data.length < fuel) :
    ∃ ret, AMFObject.decodeLoop fuel false (c.parsed + c.data.length) c =
        .ok ⟨ret, c.properties ++ parts.flatMap AMFPart.properties⟩ ∧ c.parsed ≤ ret := by
  induction parts generalizing fuel c with
  | nil =>
      obtain ⟨fuel, rfl⟩ := Nat.exists_eq_add_of_lt hfuel
      refine ⟨c.parsed, ?_, Int.le_refl _⟩
      rw [decodeLoop_short (by rw [hdata]; decide), List.flatMap_nil, List.append_nil]
  | cons p parts ih =>
      obtain ⟨fuel, rfl⟩ := Nat.exists_eq_add_of_lt hfuel
      by_cases hlen : c.data.length < 3
      · refine ⟨c.parsed, ?_, Int.le_refl _⟩
        rw [decodeLoop_short hlen, parts_short (by rw [← hdata]; exact hlen), List.append_nil]
      · rw [List.flatMap_cons] at hdata
        have hp := hfits p List.mem_cons_self
        have hpos := p.encode_pos
        have htotal : c.data.length = p.encode.length + (parts.flatMap AMFPart.encode).length := by
          rw [hdata, List.length_append]
        have hopen : field 3 c.data ≠ 9 := by
          rw [hdata]
          exact hp.open (by rw [← hdata]; omega)
        -- the fuel of the pass, one less than that of the loop
        obtain ⟨less, hless⟩ : ∃ less, c.data.length + fuel = less + 1 :=
          ⟨c.data.length + fuel - 1, by omega⟩
        obtain ⟨c', hpass, hrest, hparsed, hproperties⟩ :=
          decodeProperty_part less hp hdata (by omega)
        obtain ⟨ret, hloop, hret⟩ := ih (less + 1) c' (fun p hmem => hfits p (List.mem_cons_of_mem _ hmem)) hrest
          (by rw [hrest]; omega)
        have hsize : c'.parsed + c'.data.length = c.parsed + c.data.length := by
          rw [htotal, hrest, hparsed]
          omega
        refine ⟨ret, ?_, by omega⟩
        rw [hless, decodeLoop_pass (by omega) hopen, hpass, ok_bind, ← hsize, List.flatMap_cons,
          ← List.append_assoc, ← hproperties, ← hloop]

theorem decodedCommand_parts {parts : List AMFPart} (hfits : ∀ p ∈ parts, p.Fits) :
    decodedCommand (parts.flatMap AMFPart.encode) false = some (parts.flatMap AMFPart.properties) := by
  obtain ⟨ret, hloop, hret⟩ := decodeLoop_parts parts (2 * (parts.flatMap AMFPart.encode).length + 2)
    { data := parts.flatMap AMFPart.encode } hfits rfl (by dsimp only; omega)
  rw [start_size] at hloop
  have hcommand : CommandContext.decodeCommand (parts.flatMap AMFPart.encode) false =
      .ok ⟨ret, _⟩ := hloop
  rw [decodedCommand, hcommand]
  exact if_neg (Int.not_lt.mpr hret)

theorem decodedCommand_arguments {args : List AMFArgument} (hfits : ∀ a ∈ args, a.Fits) :
    decodedCommand (args.flatMap AMFArgument.encode) false = some (args.flatMap AMFArgument.properties) := by
  have hparts := decodedCommand_parts
    (List.forall_mem_map.mpr fun a ha => show (AMFPart.argument a).Fits from hfits a ha)
  rwa [List.flatMap_map, List.flatMap_map] at hparts

end Loop
end TmmsServer
