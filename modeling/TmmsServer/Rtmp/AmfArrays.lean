import TmmsServer.Rtmp.AmfBounds
import TmmsServer.Rtmp.AmfPositions

/-!
# Strict arrays

`Decode` hands each element of a strict array to `DecodeOnce` as if it had a name,
and the encoders write none. Only an element that begins with two zero bytes has
the empty name that is read there.
-/
namespace TmmsServer
open Lib.Words BytesReader

/-- An element of an array as the encoders write it. -/
abbrev AMFElement := { v : AMFScalar // v ≠ .null }

/-- The type, the count and the elements. -/
def strictArrayBytes (elements : List AMFElement) : List UInt8 :=
  AMFDataType.strictArray.code :: (BytesWriter.writeUint32T (UInt32.ofNat elements.length) ++
    elements.flatMap (·.1.encode))

/-- The value itself, without a name. -/
def AMFScalar.value : AMFScalar → List AMFAny
  | .number bits => [.number [] bits]
  | .string str => [.string [] str]
  | .boolean b => [.boolean [] b]
  | .null => []

/-- What an array is to be decoded to: each element in an object of its own. -/
def strictArrayEntries (elements : List AMFElement) : List AMFAny :=
  elements.map fun v => .object [] v.1.value

section Names
variable {name data : List UInt8} {size : Int} {r : Int × AMFAny}

theorem AMFNumber.decode_name [Host] (h : AMFNumber.decode name data size = .ok r) :
    r.2.name = name := by
  unfold AMFNumber.decode at h
  split at h
  · obtain ⟨n, -, h⟩ := of_bind_ok h
    rw [← Except.ok.inj h]
    rfl
  · rw [← Except.ok.inj h]
    rfl

theorem AMFBoolean.decode_name (h : AMFBoolean.decode name data size = .ok r) :
    r.2.name = name := by
  unfold AMFBoolean.decode at h
  split at h
  · obtain ⟨b, -, h⟩ := of_bind_ok h
    rw [← Except.ok.inj h]
    rfl
  · rw [← Except.ok.inj h]
    rfl

theorem AMFString.decode_name (h : AMFString.decode name data size = .ok r) : r.2.name = name := by
  unfold AMFString.decode at h
  split at h
  · rw [← Except.ok.inj h]
    rfl
  · obtain ⟨len, -, h⟩ := of_bind_ok h
    split at h
    · rw [← Except.ok.inj h]
      rfl
    · obtain ⟨str, -, h⟩ := of_bind_ok h
      rw [← Except.ok.inj h]
      rfl

theorem AMFDate.decode_name [Host] (h : AMFDate.decode name data size = .ok r) :
    r.2.name = name := by
  unfold AMFDate.decode at h
  split at h
  · rw [← Except.ok.inj h]
    rfl
  · obtain ⟨utc, -, h⟩ := of_bind_ok h
    obtain ⟨offset, -, h⟩ := of_bind_ok h
    rw [← Except.ok.inj h]
    rfl

theorem AMFLongString.decode_name (h : AMFLongString.decode name data size = .ok r) :
    r.2.name = name := by
  unfold AMFLongString.decode at h
  split at h
  · rw [← Except.ok.inj h]
    rfl
  · obtain ⟨len, -, h⟩ := of_bind_ok h
    split at h
    · rw [← Except.ok.inj h]
      rfl
    · obtain ⟨str, -, h⟩ := of_bind_ok h
      rw [← Except.ok.inj h]
      rfl

/-- The properties a flow has are those before it and others of this name. -/
def Flow.Named (c : Cursor) (name : List UInt8) (f : Flow) : Prop :=
  ∀ p ∈ f.result.properties, p ∈ c.properties ∨ p.name = name

theorem take_named {c : Cursor} (h : r.2.name = name) : (c.take r).Named c name := by
  intro p hp
  unfold Cursor.take at hp
  split at hp
  · exact .inl hp
  · rcases List.mem_append.mp hp with hp | hp
    · exact .inl hp
    · rw [List.mem_singleton.mp hp]
      exact .inr h

theorem strictArray_named {once : List UInt8 → Int → Checked Decoded} {count : Nat} {c : Cursor}
    {f : Flow} (h : Cursor.strictArray once name size count c = .ok f) : f.Named c name := by
  induction count generalizing c with
  | zero =>
      obtain rfl := Except.ok.inj h
      exact fun p hp => .inl hp
  | succ count ih =>
      rw [Cursor.strictArray] at h
      obtain ⟨r, -, h⟩ := of_bind_ok h
      split at h
      · obtain rfl := Except.ok.inj h
        exact fun p hp => .inl hp
      · intro p hp
        rcases ih h p hp with hp | hp
        · rcases List.mem_append.mp hp with hp | hp
          · exact .inl hp
          · rw [List.mem_singleton.mp hp]
            exact .inr rfl
        · exact .inr hp

theorem decodeValue_named [Host] {decode once : List UInt8 → Int → Checked Decoded}
    {type : AMFDataType} {c : Cursor} {f : Flow}
    (h : c.decodeValue decode once name type size = .ok f) :
    f.Named c name := by
  unfold Cursor.decodeValue at h
  cases type
  case number =>
    obtain ⟨r, hr, rfl⟩ := of_map_ok h
    exact take_named (AMFNumber.decode_name hr)
  case boolean =>
    obtain ⟨r, hr, rfl⟩ := of_map_ok h
    exact take_named (AMFBoolean.decode_name hr)
  case string =>
    obtain ⟨r, hr, rfl⟩ := of_map_ok h
    exact take_named (AMFString.decode_name hr)
  case date =>
    obtain ⟨r, hr, rfl⟩ := of_map_ok h
    exact take_named (AMFDate.decode_name hr)
  case longString =>
    obtain ⟨r, hr, rfl⟩ := of_map_ok h
    exact take_named (AMFLongString.decode_name hr)
  case object =>
    obtain ⟨r, -, rfl⟩ := of_map_ok h
    exact take_named rfl
  case ecmaArray =>
    obtain ⟨count, -, h⟩ := of_bind_ok h
    obtain ⟨r, -, rfl⟩ := of_map_ok h
    exact take_named (c := c.advance 4) rfl
  case strictArray =>
    obtain ⟨count, -, h⟩ := of_bind_ok h
    exact strictArray_named (c := c.advance 4) h
  all_goals
    obtain rfl := Except.ok.inj h
    exact fun p hp => .inl hp

/-- What `DecodeOnce` reads has the name in front, which lies inside. -/
theorem once_named [Host] {fuel : Nat} {once : Decoded}
    (h : onceDecoder fuel data size = .ok once) :
    (∃ k, nameSize true data = some k) ∧ ∀ p ∈ once.properties, p.name = nameText true data := by
  obtain ⟨f, hf, rfl⟩ := of_map_ok h
  cases fuel with
  | zero => exact absurd hf nofun
  | succ fuel =>
      have hcases := readName_cases { data } true
      rw [AMFObject.decodeProperty] at hf
      obtain ⟨named, hname, hf⟩ := of_bind_ok hf
      obtain ⟨type, -, hf⟩ := of_bind_ok hf
      cases hsize : nameSize true data with
      | none =>
          rw [hsize, hname] at hcases
          cases hcases
      | some k =>
          rw [hsize, hname] at hcases
          obtain rfl := Except.ok.inj hcases
          refine ⟨⟨k, rfl⟩, fun p hp => ?_⟩
          rcases decodeValue_named hf p hp with hp | hp
          · exact absurd hp List.not_mem_nil
          · exact hp

/-- Only behind two zero bytes does it read a value without name. -/
theorem once_unnamed [Host] {fuel : Nat} {once : Decoded} {p : AMFAny}
    (h : onceDecoder fuel data size = .ok once) (hp : p ∈ once.properties) (hname : p.name = []) :
    field 2 data = 0 := by
  obtain ⟨⟨k, hk⟩, hnamed⟩ := once_named h
  have htext := (hnamed p hp).symm.trans hname
  rw [nameText, if_pos rfl] at htext
  rw [nameSize, if_neg Bool.false_ne_true.symm] at hk
  split at hk
  next hin => rw [← stringText_length hin.2, htext, List.length_nil]
  next => exact absurd hk.symm (Option.some_ne_none k)

end Names

namespace AMFScalar

theorem name_of_value {v : AMFScalar} {p : AMFAny} (h : p ∈ v.value) : p.name = [] := by
  cases v with
  | null => exact absurd h List.not_mem_nil
  | number bits => rw [List.mem_singleton.mp h, AMFAny.name]
  | string str => rw [List.mem_singleton.mp h, AMFAny.name]
  | boolean b => rw [List.mem_singleton.mp h, AMFAny.name]

theorem value_ne_nil (v : AMFElement) : v.1.value ≠ [] := by
  obtain ⟨v, hv⟩ := v
  cases v with
  | null => exact absurd rfl hv
  | number bits => nofun
  | string str => nofun
  | boolean b => nofun

theorem field_two (t x : UInt8) (rest : List UInt8) :
    field 2 (t :: x :: rest) = t.toNat * 256 + x.toNat := by
  change (0 * 256 + t.toNat) * 256 + x.toNat = _
  rw [Nat.zero_mul, Nat.zero_add]

/-- Only a small number begins with two zero bytes. -/
theorem of_field_zero (v : AMFElement) {rest : List UInt8} (h : field 2 (v.1.encode ++ rest) = 0) :
    ∃ bits, v.1 = .number bits ∧ bits.toNat < 2 ^ 56 := by
  obtain ⟨v, hv⟩ := v
  have hlead : ∀ {t x : UInt8} {more : List UInt8}, t ≠ 0 → field 2 (t :: x :: more) ≠ 0 := by
    intro t x more ht
    rw [field_two]
    have hpos : t.toNat ≠ 0 := fun h0 => ht (UInt8.toNat_inj.mp h0)
    omega
  cases v with
  | null => exact absurd rfl hv
  | string str => exact absurd h (hlead (t := AMFDataType.string.code) (by decide))
  | boolean b => exact absurd h (hlead (t := AMFDataType.boolean.code) (by decide))
  | number bits =>
      refine ⟨bits, rfl, ?_⟩
      have hbits := bits.toNat_lt
      change field 2 (0 :: UInt8.ofNat (bits.toNat / 256 ^ 7) :: _) = 0 at h
      rw [field_two, UInt8.toNat_ofNat'] at h
      change 0 * 256 + bits.toNat / 2 ^ 56 % 2 ^ 8 = 0 at h
      omega

end AMFScalar

section Elements
variable [Host]

theorem toUint64_low {bits : UInt64} (h : bits.toNat < 2 ^ 56) : Double.toUint64 bits = 0 := by
  have hexponent : bits.toNat / 2 ^ 52 % 2 ^ 11 < 1023 := by omega
  rw [Double.toUint64, Lib.Double.truncate, if_pos hexponent]

/-- An element that begins with two zero bytes is read as the number zero, whatever it was. -/
theorem low_yields {bits : UInt64} (h : bits.toNat < 2 ^ 56) (rest : List UInt8) :
    PropertyYields true ((AMFScalar.number bits).encode ++ rest) (.behind 9) [.number [] 0] := by
  have hvalue := ValueYields.number [] bits rest
  rw [toUint64_low h] at hvalue
  have hbytes : (AMFScalar.number bits).encode ++ rest = 0 :: (beBytes 8 bits.toNat ++ rest) := rfl
  have hzero : field 2 ((AMFScalar.number bits).encode ++ rest) = 0 := by
    change field 2 (0 :: UInt8.ofNat (bits.toNat / 256 ^ 7) :: _) = 0
    rw [AMFScalar.field_two, UInt8.toNat_ofNat']
    change 0 * 256 + bits.toNat / 2 ^ 56 % 2 ^ 8 = 0
    omega
  have hlen : 2 ≤ ((AMFScalar.number bits).encode ++ rest).length := by
    rw [hbytes, List.length_cons, List.length_append, beBytes_length]
    omega
  have hname : nameSize true ((AMFScalar.number bits).encode ++ rest) = some 0 := by
    rw [nameSize, if_neg Bool.false_ne_true.symm, hzero, if_pos ⟨hlen, hlen⟩, if_pos rfl]
  have htext : nameText true ((AMFScalar.number bits).encode ++ rest) = [] := by
    rw [nameText, if_pos rfl, hzero, List.take_zero]
  exact PropertyYields.of_value (k := 0) hname hbytes (by rw [htext]; exact hvalue)

/-- Zeros are read as they were written, by induction on the row. -/
theorem zeros_yield {elements : List AMFElement} (h : ∀ v ∈ elements, v.1 = .number 0)
    (rest : List UInt8) :
    ElementsYield [] elements.length (elements.flatMap (·.1.encode) ++ rest)
      (.behind (elements.flatMap (·.1.encode)).length) (strictArrayEntries elements) := by
  induction elements with
  | nil => exact .none
  | cons v elements ih =>
      have hrest := ih fun w hw => h w (List.mem_cons_of_mem _ hw)
      have hv := h v List.mem_cons_self
      have hfirst := @low_yields _ 0 (Nat.two_pow_pos 56)
        (elements.flatMap (·.1.encode) ++ rest)
      have hlen : v.1.encode.length = 9 := by
        rw [hv]
        rfl
      have hdrop : (v.1.encode ++ (elements.flatMap (·.1.encode) ++ rest)).drop 9 =
          elements.flatMap (·.1.encode) ++ rest := List.drop_left' hlen
      have hvalue : v.1.value = [.number [] 0] := by
        rw [hv]
        rfl
      rw [← hv] at hfirst
      rw [← hdrop] at hrest
      have hnext := ElementsYield.next hfirst rfl (by rw [List.length_append]; omega) hrest
      rw [List.flatMap_cons, List.append_assoc, List.length_append, hlen, strictArrayEntries,
        List.map_cons, hvalue]
      exact hnext

omit [Host] in
theorem element_found {once : List UInt8 → Int → Checked Decoded} {size : Int} {count : Nat}
    {c : Cursor} {f : Flow} {before items values properties entries : List AMFAny}
    (hc : c.properties = before ++ [.object [] items])
    (hrun : Cursor.strictArray once [] size count c = .ok f)
    (hflow : f.result.properties <+: properties)
    (hfound : before ++ .object [] values :: entries <+: properties) : items = values := by
  obtain ⟨more, hmore⟩ := (strictArray_opens _ _ _ _ _ f hrun).trans hflow
  obtain ⟨more', hmore'⟩ := hfound
  rw [← hmore', hc, List.append_assoc, List.append_assoc] at hmore
  have htail := List.append_cancel_left hmore
  exact (AMFAny.object.inj (List.cons.inj htail).1).2

theorem zero_of_once {v : AMFElement} {rest : List UInt8} {fuel : Nat} {r : Decoded}
    (hfuel : 2 * (v.1.encode ++ rest).length + 1 ≤ fuel)
    (hr : onceDecoder fuel (v.1.encode ++ rest) (v.1.encode ++ rest).length = .ok r)
    (hvalue : r.properties = v.1.value) : v.1 = .number 0 ∧ r = ⟨9, [.number [] 0]⟩ := by
  obtain ⟨p, ps, hsome⟩ := List.exists_cons_of_ne_nil (AMFScalar.value_ne_nil v)
  have hp : p ∈ v.1.value := hsome ▸ List.mem_cons_self
  have hzero := once_unnamed hr (hvalue ▸ hp) (AMFScalar.name_of_value hp)
  obtain ⟨bits, hbits, hlow⟩ := AMFScalar.of_field_zero v hzero
  have hread := low_yields hlow rest
  rw [← hbits] at hread
  have honce := hread.once hfuel
  rw [hr] at honce
  obtain rfl := Except.ok.inj honce
  refine ⟨?_, rfl⟩
  rw [hbits, AMFScalar.value] at hvalue
  rw [hbits, ← (AMFAny.number.inj (List.cons.inj hvalue).1).2]

/-- A loop over the elements that is not ended by one, and gives them all as they were written,
has met only zeros: by induction on the row. -/
theorem zeros_of_found {elements : List AMFElement} {rest : List UInt8} {fuel : Nat} {c : Cursor}
    {f : Flow} {properties : List AMFAny} (hdata : c.data = elements.flatMap (·.1.encode) ++ rest)
    (hfuel : 2 * c.data.length + 1 ≤ fuel)
    (hrun : Cursor.strictArray (onceDecoder fuel) [] (c.parsed + c.data.length) elements.length c = .ok f)
    (hdone : ∀ r, f = .done r → r.ret ≠ -1) (hflow : f.result.properties <+: properties)
    (hfound : c.properties ++ strictArrayEntries elements <+: properties) :
    ∀ v ∈ elements, v.1 = .number 0 := by
  induction elements generalizing c with
  | nil => exact nofun
  | cons v elements ih =>
      have hbytes : c.data = v.1.encode ++ (elements.flatMap (·.1.encode) ++ rest) := by
        rw [hdata, List.flatMap_cons, List.append_assoc]
      rw [List.length_cons, Cursor.strictArray, left_size] at hrun
      obtain ⟨r, hr, hrun⟩ := of_bind_ok hrun
      split at hrun
      next => exact absurd rfl (hdone _ (Except.ok.inj hrun).symm)
      next =>
        have hhead : r.properties = v.1.value := element_found rfl hrun hflow hfound
        rw [hbytes] at hr hfuel
        obtain ⟨hv, rfl⟩ := zero_of_once hfuel hr hhead
        have hlen : v.1.encode.length = 9 := by
          rw [hv]
          rfl
        have hdrop : c.data.drop 9 = elements.flatMap (·.1.encode) ++ rest := by
          rw [hbytes, List.drop_left' hlen]
        have hsum : c.data.length = 9 + (c.data.drop 9).length := by
          rw [hdrop, hbytes, List.length_append, hlen]
        have hsize : c.parsed + (9 : Nat) + (c.data.drop 9).length =
            c.parsed + c.data.length := by omega
        rw [← hbytes] at hfuel
        have htail := ih (c := ⟨c.data.drop 9, c.parsed + (9 : Nat), c.properties ++ [.object [] [.number [] 0]]⟩)
          hdrop (by dsimp only; omega) (by dsimp only; rw [hsize]; exact hrun) (by
            rw [strictArrayEntries, List.map_cons, hv] at hfound
            rw [List.append_assoc]
            exact hfound)
        intro w hw
        rcases List.mem_cons.mp hw with rfl | hw
        · exact hv
        · exact htail w hw

end Elements

section Arrays

theorem strictArrayBytes_eq (elements : List AMFElement) (rest : List UInt8) :
    strictArrayBytes elements ++ rest = AMFDataType.strictArray.code ::
      (BytesWriter.writeUint32T (UInt32.ofNat elements.length) ++
        (elements.flatMap (·.1.encode) ++ rest)) := by
  rw [strictArrayBytes, List.cons_append, List.append_assoc]

theorem elements_length_le (elements : List AMFElement) :
    elements.length ≤ (elements.flatMap (·.1.encode)).length := by
  induction elements with
  | nil => exact Nat.le_refl 0
  | cons v elements ih =>
      have hpos := v.1.encode_pos
      rw [List.flatMap_cons, List.length_append, List.length_cons]
      omega

theorem strictArrayBytes_length (elements : List AMFElement) :
    (strictArrayBytes elements).length = 5 + (elements.flatMap (·.1.encode)).length := by
  rw [strictArrayBytes, List.length_cons, List.length_append, BytesWriter.writeUint32T,
    beBytes_length]
  omega

theorem strictArray_count {n : Nat} (hn : n < 2 ^ 32) (rest : List UInt8) :
    4 ≤ (BytesWriter.writeUint32T (UInt32.ofNat n) ++ rest).length ∧
      field 4 (BytesWriter.writeUint32T (UInt32.ofNat n) ++ rest) = n ∧
      (BytesWriter.writeUint32T (UInt32.ofNat n) ++ rest).drop 4 = rest := by
  have hfour : (BytesWriter.writeUint32T (UInt32.ofNat n)).length = 4 := beBytes_length 4 _
  refine ⟨?_, ?_, List.drop_left' hfour⟩
  · rw [List.length_append, hfour]
    exact Nat.le_add_right 4 _
  · rw [field, List.take_left' hfour, BytesWriter.writeUint32T, beValue_beBytes,
      UInt32.toNat_ofNat', Nat.mod_eq_of_lt hn]
    exact Nat.mod_eq_of_lt hn

variable [Host]

theorem yields_of_decode {b : List UInt8} {values : Decoded} (hlen : b.length < 2 ^ 31)
    (h : AMFObject.decode b b.length false = .ok values) (hvalues : values.ret ≠ -1) :
    ∃ e, ObjectYields false b e values.properties ∧ 0 ≤ values.ret ∧
      ∀ parsed, e.ret parsed = parsed + values.ret := by
  have hends := AMFObject.decode_ends b false hlen
  rw [h] at hends
  obtain ⟨e, hscan, -⟩ := hends
  obtain ⟨ps, hps⟩ := hscan.yields hlen
  rw [hps.decode] at h
  obtain rfl := Except.ok.inj h
  refine ⟨e, hps, ?_⟩
  cases e with
  | refused => exact absurd rfl hvalues
  | behind n =>
      exact ⟨by change (0 : Int) ≤ 0 + n; omega, fun parsed => by change parsed + (n : Int) = parsed + (0 + n); omega⟩
  | closed n =>
      exact ⟨by change (0 : Int) ≤ 0 + n; omega, fun parsed => by change parsed + (n : Int) = parsed + (0 + n); omega⟩

section Array
variable {elements : List AMFElement} (hn : elements.length < 2 ^ 32) (rest : List UInt8)
include hn

theorem strictArray_reads {fuel : Nat} {f : Flow}
    (h : AMFObject.decodeProperty (fuel + 1) false (strictArrayBytes elements ++ rest).length
      { data := strictArrayBytes elements ++ rest } = .ok f) :
    ∃ c : Cursor, c.data = elements.flatMap (·.1.encode) ++ rest ∧ c.properties = [] ∧
      Cursor.strictArray (onceDecoder fuel) [] (c.parsed + c.data.length) elements.length c = .ok f := by
  obtain ⟨hfour, hcount, hbehind⟩ := strictArray_count hn (elements.flatMap (·.1.encode) ++ rest)
  have hname : nameSize false (strictArrayBytes elements ++ rest) = some 0 := rfl
  obtain ⟨c, hc, -, hread⟩ := decodeProperty_value (c := { data := strictArrayBytes elements ++ rest })
    fuel hname (strictArrayBytes_eq elements rest)
  have hdata : c.data = BytesWriter.writeUint32T (UInt32.ofNat elements.length) ++
      (elements.flatMap (·.1.encode) ++ rest) := by rw [hc]
  have harray := decodeValue_strictArray (objectDecoder fuel) (onceDecoder fuel) [] c
    (by rw [hdata]; exact hfour)
  rw [hdata, hcount, ← hdata] at harray
  refine ⟨c.advance 4, ?_, ?_, ?_⟩
  · rw [← hbehind, ← hdata]
    exact advance_data c 4
  · rw [hc]
    rfl
  · rw [← start_size, hread] at h
    exact harray.symm.trans h

theorem strictArray_yields (h : ∀ v ∈ elements, v.1 = .number 0) :
    PropertyYields false (strictArrayBytes elements ++ rest) (.behind (strictArrayBytes elements).length)
      (strictArrayEntries elements) := by
  obtain ⟨hfour, hcount, hbehind⟩ := strictArray_count hn (elements.flatMap (·.1.encode) ++ rest)
  have hitems : ElementsYield [] (field 4 (BytesWriter.writeUint32T (UInt32.ofNat elements.length) ++
      (elements.flatMap (·.1.encode) ++ rest))) ((BytesWriter.writeUint32T (UInt32.ofNat elements.length) ++
      (elements.flatMap (·.1.encode) ++ rest)).drop 4) (.behind (elements.flatMap (·.1.encode)).length)
      (strictArrayEntries elements) := by
    rw [hcount, hbehind]
    exact zeros_yield h rest
  have hvalue : ValueYields [] .strictArray _ (.behind (4 + (elements.flatMap (·.1.encode)).length)) _ :=
    ElementsYield.value hfour hitems
  have hproperty := PropertyYields.unnamed rfl hvalue
  have hextent : 1 + (4 + (elements.flatMap (·.1.encode)).length) =
      (strictArrayBytes elements).length := by
    rw [strictArrayBytes_length]
    omega
  rwa [hextent, ← strictArrayBytes_eq] at hproperty

end Array

/-- An array and the values behind it come out as written exactly where all elements are zero. -/
theorem AMFObject.decode_strictArray_iff (elements : List AMFElement) (rest : List UInt8)
    (values : Decoded) (hlen : (strictArrayBytes elements ++ rest).length < 2 ^ 31)
    (hrest : AMFObject.decode rest rest.length false = .ok values) (hvalues : values.ret ≠ -1) :
    AMFObject.decode (strictArrayBytes elements ++ rest) (strictArrayBytes elements ++ rest).length false =
        .ok ⟨(strictArrayBytes elements).length + values.ret, strictArrayEntries elements ++ values.properties⟩ ↔
      ∀ v ∈ elements, v.1 = .number 0 := by
  have hcounted := strictArrayBytes_length elements
  have hsum : (strictArrayBytes elements ++ rest).length =
      (strictArrayBytes elements).length + rest.length := List.length_append
  have hle := elements_length_le elements
  have hthree : 3 ≤ (strictArrayBytes elements ++ rest).length := by omega
  have hopen : field 3 (strictArrayBytes elements ++ rest) ≠ 9 := by
    rw [strictArrayBytes_eq] at hthree ⊢
    exact field_lead (t := AMFDataType.strictArray.code) (by decide) hthree
  obtain ⟨e, hyields, hnonneg, hret⟩ := yields_of_decode (by omega) hrest hvalues
  constructor
  · intro h
    unfold AMFObject.decode at h
    rw [← start_size, decodeLoop_pass hthree hopen, start_size] at h
    obtain ⟨f, hproperty, h⟩ := of_bind_ok h
    obtain ⟨c, hdata, hitems, hrun⟩ := strictArray_reads (by omega) rest hproperty
    have hfound : c.properties ++ strictArrayEntries elements <+:
        strictArrayEntries elements ++ values.properties := by
      rw [hitems, List.nil_append]
      exact List.prefix_append _ _
    refine zeros_of_found hdata ?_ hrun ?_ ?_ hfound
    · rw [hdata, List.length_append]
      omega
    · rintro r rfl hrefused
      obtain rfl := Except.ok.inj h
      dsimp only at hrefused
      omega
    · cases f with
      | next c' => exact decodeLoop_opens _ _ _ c' _ h
      | done r =>
          obtain rfl := Except.ok.inj h
          exact List.prefix_refl _
  · intro h
    have hpass := ObjectYields.pass hthree hopen (strictArray_yields (by omega) rest h) (by omega)
      (by omega) (by rw [List.drop_left]; exact hyields)
    rw [hpass.decode, Extent.ret_shift, hret, Int.zero_add]

end Arrays

theorem AMFObject.decode_strictArray_zero :
    @AMFObject.decode ⟨fun _ => 0⟩ [10, 0, 0, 0, 1, 0, 0, 0, 0, 0, 0, 0, 0, 0, 2, 0, 1, 97] 18 false =
      .ok ⟨18, [.object [] [.number [] 0], .string [] [97]]⟩ :=
  (@AMFObject.decode_strictArray_iff ⟨fun _ => 0⟩ [⟨.number 0, nofun⟩] [2, 0, 1, 97]
    ⟨4, [.string [] [97]]⟩ (by decide) rfl (by decide)).mpr fun v hv => by rw [List.mem_singleton.mp hv]

/-- The array of the number 1.0: its type and first byte are taken for the length of a name. -/
theorem AMFObject.strictArray_lost : ¬ ∃ _ : Host, ∀ (elements : List AMFElement)
    (rest : List UInt8) (values : Decoded), (strictArrayBytes elements ++ rest).length < 2 ^ 31 →
    AMFObject.decode rest rest.length false = .ok values → values.ret ≠ -1 →
    AMFObject.decode (strictArrayBytes elements ++ rest) (strictArrayBytes elements ++ rest).length false =
      .ok ⟨(strictArrayBytes elements).length + values.ret,
        strictArrayEntries elements ++ values.properties⟩ := by
  rintro ⟨host, h⟩
  have hdecode := h [⟨.number 0x3FF0000000000000, nofun⟩] [] ⟨0, []⟩ (by decide) rfl (by decide)
  have hcall : AMFObject.decode (strictArrayBytes [⟨.number 0x3FF0000000000000, nofun⟩] ++ [])
      (strictArrayBytes [⟨.number 0x3FF0000000000000, nofun⟩] ++ []).length false = .error .outOfBounds := rfl
  rw [hcall] at hdecode
  exact absurd hdecode nofun

end TmmsServer
