import TmmsServer.Rtmp.AmfPasses

/-!
# What a message is read as

The properties the parts of a message give. They depend on the bytes of the part
alone: neither on what was parsed before it nor on the fuel, as long as it lasts.
-/
namespace TmmsServer
open Lib.Words BytesReader

/-- What is decoded has the properties in front. -/
def Opens (properties : List AMFAny) (x : Checked Decoded) : Prop :=
  ∀ r, x = .ok r → properties <+: r.properties

/-- The same where the switch is left. -/
def FlowOpens (properties : List AMFAny) (x : Checked Flow) : Prop :=
  ∀ f, x = .ok f → properties <+: f.result.properties

namespace FlowOpens
variable {c : Cursor} {properties : List AMFAny}

theorem ok {f : Flow} (h : properties <+: f.result.properties) : FlowOpens properties (.ok f) := by
  intro f' hf'
  rwa [← Except.ok.inj hf']

theorem bind {α : Type} {x : Checked α} {f : α → Checked Flow}
    (hf : ∀ a, x = .ok a → FlowOpens properties (f a)) : FlowOpens properties (x >>= f) := by
  intro flow hflow
  obtain ⟨a, ha, hflow⟩ := of_bind_ok hflow
  exact hf a ha flow hflow

theorem take {α : Type} (x : Checked α) (value : α → Int × AMFAny) :
    FlowOpens c.properties (x.map fun a => c.take (value a)) := by
  intro f hf
  obtain ⟨a, -, rfl⟩ := of_map_ok hf
  unfold Cursor.take
  split
  · exact List.prefix_refl _
  · exact List.prefix_append _ _

end FlowOpens

theorem strictArray_opens (once : List UInt8 → Int → Checked Decoded) (name : List UInt8)
    (size : Int) (count : Nat)
    (c : Cursor) : FlowOpens c.properties (Cursor.strictArray once name size count c) := by
  induction count generalizing c with
  | zero => exact FlowOpens.ok (List.prefix_refl _)
  | succ count ih =>
      apply FlowOpens.bind
      intro r _
      split
      · exact FlowOpens.ok (List.prefix_refl _)
      · intro f hf
        exact (List.prefix_append _ _).trans (ih _ f hf)

theorem readName_properties {c : Cursor} {has : Bool} {named : List UInt8 × Cursor}
    (h : c.readName has = .ok named) : named.2.properties = c.properties := by
  have hcases := readName_cases c has
  cases hname : nameSize has c.data with
  | none =>
      rw [hname, h] at hcases
      exact absurd hcases nofun
  | some k =>
      rw [hname, h] at hcases
      rw [Except.ok.inj hcases]

section Decoder
variable [Host]

theorem decodeValue_opens (decode once : List UInt8 → Int → Checked Decoded) (c : Cursor)
    (name : List UInt8)
    (type : AMFDataType) (size : Int) : FlowOpens c.properties (c.decodeValue decode once name type size) := by
  cases type with
  | number => exact FlowOpens.take _ id
  | boolean => exact FlowOpens.take _ id
  | string => exact FlowOpens.take _ id
  | object => exact FlowOpens.take _ _
  | ecmaArray =>
      apply FlowOpens.bind
      intro count _
      exact FlowOpens.take (c := c.advance 4) _ _
  | objectEnd => exact FlowOpens.ok (List.prefix_refl _)
  | strictArray =>
      apply FlowOpens.bind
      intro count _
      exact strictArray_opens once name size count.toNat (c.advance 4)
  | date => exact FlowOpens.take _ id
  | longString => exact FlowOpens.take _ id
  | _ => exact FlowOpens.ok (List.prefix_refl _)

theorem decodeProperty_opens (fuel : Nat) (has : Bool) (size : Int) (c : Cursor) :
    FlowOpens c.properties (AMFObject.decodeProperty fuel has size c) := by
  cases fuel with
  | zero => exact fun f hf => absurd hf nofun
  | succ fuel =>
      unfold AMFObject.decodeProperty
      apply FlowOpens.bind
      rintro ⟨name, c'⟩ hname
      rw [← readName_properties hname]
      apply FlowOpens.bind
      intro type _
      exact decodeValue_opens _ _ (c'.advance 1) name (.ofCode type) size

/-- Over the passes of the loop, by induction on the fuel. -/
theorem decodeLoop_opens (fuel : Nat) (has : Bool) (size : Int) (c : Cursor) :
    Opens c.properties (AMFObject.decodeLoop fuel has size c) := by
  induction fuel generalizing c with
  | zero => exact fun r hr => absurd hr nofun
  | succ fuel ih =>
      intro r hr
      unfold AMFObject.decodeLoop at hr
      split at hr
      next =>
        obtain ⟨mark, -, hr⟩ := of_bind_ok hr
        split at hr
        next =>
          obtain rfl := Except.ok.inj hr
          exact List.prefix_refl _
        next =>
          obtain ⟨flow, hflow, hr⟩ := of_bind_ok hr
          have hfront := decodeProperty_opens fuel has size c flow hflow
          cases flow with
          | next c' => exact hfront.trans (ih c' r hr)
          | done d =>
              obtain rfl := Except.ok.inj hr
              exact hfront
      next =>
        obtain rfl := Except.ok.inj hr
        exact List.prefix_refl _

end Decoder

section Yields
variable [Host]

/-- The loop of `Decode` over the bytes gives this extent and these properties. -/
def ObjectYields (has : Bool) (b : List UInt8) (e : Extent) (ps : List AMFAny) : Prop :=
  ∀ (fuel : Nat) (c : Cursor), c.data = b → 2 * b.length + 2 ≤ fuel →
    AMFObject.decodeLoop fuel has (c.parsed + c.data.length) c = .ok ⟨e.ret c.parsed, c.properties ++ ps⟩

/-- The same for one property, -/
def PropertyYields (has : Bool) (b : List UInt8) (e : Extent) (ps : List AMFAny) : Prop :=
  ∀ (fuel : Nat) (c : Cursor), c.data = b → 2 * b.length + 1 ≤ fuel →
    AMFObject.decodeProperty fuel has (c.parsed + c.data.length) c = .ok (c.leave ps e)

/-- for a value behind its name and type, -/
def ValueYields (name : List UInt8) (type : AMFDataType) (b : List UInt8) (e : Extent)
    (ps : List AMFAny) : Prop :=
  ∀ (fuel : Nat) (c : Cursor), c.data = b → 2 * b.length + 2 ≤ fuel →
    c.decodeValue (objectDecoder fuel) (onceDecoder fuel) name type (c.parsed + c.data.length) =
      .ok (c.leave ps e)

/-- and for the elements of an array. -/
def ElementsYield (name : List UInt8) (count : Nat) (b : List UInt8) (e : Extent)
    (ps : List AMFAny) : Prop :=
  ∀ (fuel : Nat) (c : Cursor), c.data = b → 2 * b.length + 1 ≤ fuel →
    Cursor.strictArray (onceDecoder fuel) name (c.parsed + c.data.length) count c = .ok (c.leave ps e)

namespace ObjectYields
variable {has : Bool} {b : List UInt8} {e : Extent} {n : Nat} {ps qs : List AMFAny}

theorem short (hlen : b.length < 3) : ObjectYields has b (.behind 0) [] := by
  rintro (_ | fuel) c rfl hfuel
  · exact absurd hfuel (by omega)
  · rw [decodeLoop_short hlen, List.append_nil]
    exact congrArg (fun r => Except.ok (Decoded.mk r _)) (Int.add_zero _).symm

theorem marker (hlen : 3 ≤ b.length) (hmark : field 3 b = 9) :
    ObjectYields has b (.behind 3) [] := by
  rintro (_ | fuel) c rfl hfuel
  · exact absurd hfuel (by omega)
  · rw [decodeLoop_marker hlen hmark, List.append_nil]
    rfl

theorem pass (hlen : 3 ≤ b.length) (hmark : field 3 b ≠ 9)
    (hfirst : PropertyYields has b (.behind n) ps) (hpos : 1 ≤ n) (hle : n ≤ b.length)
    (hrest : ObjectYields has (b.drop n) e qs) : ObjectYields has b (e.shift n) (ps ++ qs) := by
  rintro (_ | fuel) c rfl hfuel
  · exact absurd hfuel (by omega)
  · have hdrop : (c.data.drop n).length = c.data.length - n := List.length_drop
    have hsum : c.parsed + (n : Nat) + (c.data.drop n).length = c.parsed + c.data.length := by omega
    have hloop := hrest fuel ⟨c.data.drop n, c.parsed + n, c.properties ++ ps⟩ rfl (by omega)
    dsimp only at hloop
    rw [hsum] at hloop
    rw [decodeLoop_pass hlen hmark, hfirst fuel c rfl (by omega), ok_bind]
    dsimp only [Cursor.leave]
    rw [hloop, Extent.ret_shift, List.append_assoc]

theorem leave (hlen : 3 ≤ b.length) (hmark : field 3 b ≠ 9) (hfirst : PropertyYields has b e ps)
    (hend : ∀ n, e ≠ .behind n) {e' : Extent} (hret : ∀ parsed, e'.ret parsed = e.ret parsed) :
    ObjectYields has b e' ps := by
  rintro (_ | fuel) c rfl hfuel
  · exact absurd hfuel (by omega)
  · rw [decodeLoop_pass hlen hmark, hfirst fuel c rfl (by omega), ok_bind, hret]
    cases e with
    | behind n => exact absurd rfl (hend n)
    | closed n => rfl
    | refused => rfl

theorem decode (h : ObjectYields has b e ps) :
    AMFObject.decode b b.length has = .ok ⟨e.ret 0, ps⟩ := by
  have hloop := h (2 * b.length + 2) { data := b } rfl (Nat.le_refl _)
  rwa [start_size] at hloop

theorem value (h : ObjectYields true b e ps) (hopen : ∀ n, e ≠ .closed n) (name : List UInt8) :
    ValueYields name .object b e (Cursor.kept (.object name ps) e) := by
  rintro fuel c rfl hfuel
  have hloop := h fuel { data := c.data } rfl hfuel
  rw [start_size] at hloop
  rw [decodeValue_object, objectDecoder, hloop, map_ok, ← Cursor.take_leave c _ hopen]
  rfl

theorem ecmaArray (hcount : 4 ≤ b.length) (h : ObjectYields true (b.drop 4) e ps)
    (hopen : ∀ n, e ≠ .closed n) (name : List UInt8) :
    ValueYields name .ecmaArray b (e.shift 4) (Cursor.kept (.object name ps) e) := by
  rintro fuel c rfl hfuel
  have hdrop : (c.data.drop 4).length = c.data.length - 4 := List.length_drop
  have hfour : c.advance 4 = ⟨c.data.drop 4, c.parsed + (4 : Nat), c.properties ++ []⟩ := by
    rw [List.append_nil]
    rfl
  have hloop := h fuel { data := c.data.drop 4 } rfl (by omega)
  rw [start_size] at hloop
  rw [decodeValue_ecmaArray _ _ name c hcount, hfour]
  dsimp only
  rw [objectDecoder, hloop, map_ok]
  dsimp only
  rw [List.nil_append, Cursor.take_leave _ _ hopen, Cursor.leave_shift, List.nil_append]

end ObjectYields

namespace PropertyYields
variable {b v : List UInt8} {e : Extent} {ps : List AMFAny}

theorem of_value {has : Bool} {k : Nat} {t : UInt8} (hname : nameSize has b = some k)
    (htype : b.drop k = t :: v) (hvalue : ValueYields (nameText has b) (.ofCode t) v e ps) :
    PropertyYields has b (e.shift (k + 1)) ps := by
  rintro (_ | fuel) c rfl hfuel
  · exact absurd hfuel (by omega)
  · have hlen := congrArg List.length htype
    rw [List.length_drop, List.length_cons] at hlen
    obtain ⟨c', hc', hv, hread⟩ := decodeProperty_value fuel hname htype
    have hdata : c'.data = v := by rw [hc']
    have hleave := Cursor.leave_shift c [] ps e (k + 1)
    rw [List.nil_append, List.append_nil, ← hv, ← hc'] at hleave
    rw [hread, hvalue fuel c' hdata (by omega), hleave]

theorem once (h : PropertyYields true b e ps) {fuel : Nat} (hfuel : 2 * b.length + 1 ≤ fuel) :
    onceDecoder fuel b b.length = .ok ⟨e.ret 0, ps⟩ := by
  have hproperty := h fuel { data := b } rfl hfuel
  rw [start_size] at hproperty
  rw [onceDecoder, hproperty, map_ok, Cursor.leave_result]
  rfl

end PropertyYields

namespace ElementsYield
variable {b : List UInt8} {e : Extent} {n count : Nat} {ps qs : List AMFAny} {name : List UInt8}

theorem none : ElementsYield name 0 b (.behind 0) [] := by
  rintro fuel c rfl -
  rw [Cursor.strictArray, Cursor.leave, List.append_nil]
  exact congrArg (fun parsed => Except.ok (Flow.next ⟨c.data, parsed, c.properties⟩)) (Int.add_zero _).symm

theorem next (hfirst : PropertyYields true b e ps) (hn : e.bytes = some n) (hle : n ≤ b.length)
    {e' : Extent} (hrest : ElementsYield name count (b.drop n) e' qs) :
    ElementsYield name (count + 1) b (e'.shift n) (.object name ps :: qs) := by
  rintro fuel c rfl hfuel
  have hlen : (c.data.drop n).length = c.data.length - n := List.length_drop
  have hret : (Decoded.mk (e.ret 0) ps).ret = n := Extent.ret_of_bytes hn
  have htail := hrest fuel ⟨c.data.drop n, c.parsed + n, c.properties ++ [.object name ps]⟩ rfl (by omega)
  rw [Cursor.leave_shift] at htail
  rw [strictArray_next count (hfirst.once hfuel) hret hle]
  exact htail

theorem refused (hfirst : PropertyYields true b .refused ps) :
    ElementsYield name (count + 1) b .refused [] := by
  rintro fuel c rfl hfuel
  rw [strictArray_refused count (hfirst.once hfuel) rfl]
  change Except.ok (Flow.done ⟨-1, c.properties⟩) = .ok (.done ⟨-1, c.properties ++ []⟩)
  rw [List.append_nil]

theorem value (hcount : 4 ≤ b.length) (h : ElementsYield name (field 4 b) (b.drop 4) e ps) :
    ValueYields name .strictArray b (e.shift 4) ps := by
  rintro fuel c rfl hfuel
  have hdrop : (c.data.drop 4).length = c.data.length - 4 := List.length_drop
  have hfour : c.advance 4 = ⟨c.data.drop 4, c.parsed + (4 : Nat), c.properties ++ []⟩ := by
    rw [List.append_nil]
    rfl
  have hitems := h fuel (c.advance 4) rfl (by omega)
  rw [decodeValue_strictArray _ _ name c hcount, hitems, hfour, Cursor.leave_shift, List.nil_append]

end ElementsYield

/-- Every part the grammar knows gives properties that are its own. -/
theorem Scan.yields {p : Part} {b : List UInt8} {e : Extent} (h : Scan p b e)
    (hN : b.length < 2 ^ 31) : match p with
    | .object has => ∃ ps, ObjectYields has b e ps
    | .property has => ∃ ps, PropertyYields has b e ps
    | .value type => ∀ name, ∃ ps, ValueYields name type b e ps
    | .elements count => ∀ name, ∃ ps, ElementsYield name count b e ps := by
  have hdrop : ∀ {b : List UInt8} (n : Nat), b.length < 2 ^ 31 → (b.drop n).length < 2 ^ 31 := by
    intro b n hb
    rw [List.length_drop]
    omega
  induction h with
  | short hlen => exact ⟨_, .short hlen⟩
  | marker hlen hmark => exact ⟨_, .marker hlen hmark⟩
  | pass hlen hmark hfirst _ ihfirst ihrest =>
      obtain ⟨ps, hps⟩ := ihfirst hN
      obtain ⟨qs, hqs⟩ := ihrest (hdrop _ hN)
      exact ⟨_, .pass hlen hmark hps (hfirst.property_pos rfl) (hfirst.bytes_le rfl) hqs⟩
  | leave hlen hmark _ ihfirst =>
      obtain ⟨ps, hps⟩ := ihfirst hN
      exact ⟨_, .leave hlen hmark hps nofun fun _ => rfl⟩
  | objectRefused hlen hmark _ ihfirst =>
      obtain ⟨ps, hps⟩ := ihfirst hN
      exact ⟨_, .leave hlen hmark hps nofun fun _ => rfl⟩
  | property hname htype _ ih =>
      have hlen := congrArg List.length htype
      rw [List.length_drop, List.length_cons] at hlen
      obtain ⟨ps, hps⟩ := ih (by omega) _
      exact ⟨_, .of_value hname htype hps⟩
  | scalar he =>
      intro name
      obtain ⟨ps, hps⟩ := decodeValue_scalar name hN he
      exact ⟨ps, fun fuel c hc _ => hps _ _ c hc⟩
  | object hobj ih =>
      intro name
      obtain ⟨ps, hps⟩ := ih hN
      exact ⟨_, hps.value (fun n => hobj.not_closed n) name⟩
  | ecmaArray hcount hobj ih =>
      intro name
      obtain ⟨ps, hps⟩ := ih (hdrop 4 hN)
      exact ⟨_, hps.ecmaArray hcount (fun n => hobj.not_closed n) name⟩
  | strictArray hcount _ ih =>
      intro name
      obtain ⟨ps, hps⟩ := ih (hdrop 4 hN) name
      exact ⟨_, hps.value hcount⟩
  | noElements => exact fun name => ⟨_, .none⟩
  | element hfirst hn _ ihfirst ihrest =>
      intro name
      obtain ⟨ps, hps⟩ := ihfirst hN
      obtain ⟨qs, hqs⟩ := ihrest (hdrop _ hN) name
      exact ⟨_, .next hps hn (hfirst.bytes_le hn) hqs⟩
  | elementRefused _ ih =>
      intro name
      obtain ⟨ps, hps⟩ := ih hN
      exact ⟨_, .refused hps⟩

end Yields
end TmmsServer
