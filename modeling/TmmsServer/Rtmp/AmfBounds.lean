import TmmsServer.Rtmp.AmfReading

/-!
# Where the AMF decoder stays inside the message

`AMFObject::Decode` against the grammar: what it returns is the extent of a
message of the grammar, and it returns for each of them.
-/
namespace TmmsServer
open Lib.Words BytesReader

/-- A call that returns gives the extent of a part, and one that fails has read behind the message. -/
def Covers (p : Part) (b : List UInt8) (parsed : Int) : Checked Decoded → Prop
  | .ok r => ∃ e, Scan p b e ∧ r.ret = e.ret parsed
  | .error e => e = .outOfBounds

/-- The same for the switch. -/
def FlowCovers (p : Part) (c : Cursor) : Checked Flow → Prop
  | .ok f => ∃ e, Scan p c.data e ∧ f.Matches c e
  | .error e => e = .outOfBounds

theorem FlowCovers.imp {p q : Part} {c : Cursor} {x : Checked Flow} (h : FlowCovers p c x)
    (hscan : ∀ e, Scan p c.data e → Scan q c.data e) : FlowCovers q c x := by
  cases x with
  | error e => exact h
  | ok f =>
      obtain ⟨e, he, hf⟩ := h
      exact ⟨e, hscan e he, hf⟩

theorem FlowCovers.shift {p q : Part} {c c' : Cursor} {x : Checked Flow} {k : Nat}
    (h : FlowCovers p c' x) (hdata : c'.data = c.data.drop k) (hparsed : c'.parsed = c.parsed + k)
    (hscan : ∀ e, Scan p (c.data.drop k) e → Scan q c.data (e.shift k)) : FlowCovers q c x := by
  cases x with
  | error e => exact h
  | ok f =>
      obtain ⟨e, he, hf⟩ := h
      exact ⟨e.shift k, hscan e (hdata ▸ he), hf.shift hdata hparsed⟩

theorem FlowCovers.result {p : Part} {c : Cursor} {x : Checked Flow} (h : FlowCovers p c x) :
    Covers p c.data c.parsed (x.map Flow.result) := by
  cases x with
  | error e => exact h
  | ok f =>
      obtain ⟨e, he, hf⟩ := h
      exact ⟨e, he, hf.result⟩

theorem object_covers {c : Cursor} {r : Checked Decoded} (name : List UInt8)
    (h : Covers (.object true) c.data 0 r) :
    FlowCovers (.object true) c (r.map fun r => c.take (r.ret, .object name r.properties)) := by
  cases r with
  | error e => exact h
  | ok r =>
      obtain ⟨e, he, hr⟩ := h
      refine ⟨e, he, ?_⟩
      dsimp only
      rw [hr]
      exact take_matches c _ fun n => he.not_closed n

theorem strictArray_covers {once : List UInt8 → Int → Checked Decoded} (name : List UInt8)
    (count : Nat) (c : Cursor)
    (h : ∀ b, b.length ≤ c.data.length → Covers (.property true) b 0 (once b b.length)) :
    FlowCovers (.elements count) c (Cursor.strictArray once name (c.parsed + c.data.length) count c) := by
  induction count generalizing c with
  | zero => exact ⟨.behind 0, .noElements, c, rfl, rfl, (Int.add_zero _).symm⟩
  | succ count ih =>
      have hfirst := h c.data (Nat.le_refl _)
      cases honce : once c.data c.data.length with
      | error e =>
          rw [honce] at hfirst
          rw [Cursor.strictArray, left_size, honce]
          exact hfirst
      | ok r =>
          rw [honce] at hfirst
          obtain ⟨e, he, hr⟩ := hfirst
          cases hn : e.bytes with
          | none =>
              obtain rfl := Extent.refused_of_bytes hn
              rw [strictArray_refused count honce hr]
              exact ⟨.refused, .elementRefused he, _, rfl, rfl⟩
          | some n =>
              rw [strictArray_next count honce (hr.trans (Extent.ret_of_bytes hn)) (he.bytes_le hn)]
              have hrest := ih ((c.advance n).emplace (.object name r.properties)) fun b hb => h b (by
                change b.length ≤ (c.advance n).data.length at hb
                rw [advance_data, List.length_drop] at hb
                omega)
              exact hrest.shift (advance_data c n) rfl fun e' he' => .element he hn he'

section Sound
variable [Host]

theorem decodeValue_covers (decode once : List UInt8 → Int → Checked Decoded) (name : List UInt8)
    (type : AMFDataType) (c : Cursor) (hN : c.data.length < 2 ^ 31)
    (hdecode : ∀ b, b.length ≤ c.data.length → Covers (.object true) b 0 (decode b b.length))
    (honce : ∀ b, b.length ≤ c.data.length → Covers (.property true) b 0 (once b b.length)) :
    FlowCovers (.value type) c (c.decodeValue decode once name type (c.parsed + c.data.length)) := by
  have hdrop : (c.advance 4).data = c.data.drop 4 := advance_data c 4
  have hshorter : (c.advance 4).data.length ≤ c.data.length := by
    rw [hdrop, List.length_drop]
    exact Nat.sub_le _ _
  cases hscalar : scalarExtent type c.data with
  | some e =>
      obtain ⟨ps, hps⟩ := decodeValue_scalar name hN hscalar
      rw [hps decode once c rfl]
      exact ⟨e, .scalar hscalar, leave_matches c ps e⟩
  | none =>
      cases type
      case object =>
        rw [decodeValue_object]
        exact (object_covers name (hdecode c.data (Nat.le_refl _))).imp fun e he => .object he
      case ecmaArray =>
        by_cases hcount : 4 ≤ c.data.length
        · rw [decodeValue_ecmaArray decode once name c hcount]
          exact (object_covers name (hdecode _ hshorter)).shift hdrop rfl fun e he => .ecmaArray hcount he
        · rw [(decodeValue_noCount decode once name c (Nat.not_le.mp hcount) _).1]
          exact rfl
      case strictArray =>
        by_cases hcount : 4 ≤ c.data.length
        · rw [decodeValue_strictArray decode once name c hcount]
          have hitems := strictArray_covers name (field 4 c.data) (c.advance 4) fun b hb =>
            honce b (Nat.le_trans hb hshorter)
          exact hitems.shift hdrop rfl fun e he => .strictArray hcount he
        · rw [(decodeValue_noCount decode once name c (Nat.not_le.mp hcount) _).2]
          exact rfl
      case longString =>
        have hcases := longString_cases name hN
        rw [hscalar] at hcases
        unfold Cursor.decodeValue
        dsimp only at hcases ⊢
        rw [left_size, hcases]
        exact rfl
      case string =>
        unfold scalarExtent at hscalar
        dsimp only at hscalar
        split at hscalar <;> exact absurd hscalar nofun
      all_goals exact absurd hscalar nofun

theorem decodeProperty_covers {fuel : Nat} (has : Bool) (c : Cursor) (hN : c.data.length < 2 ^ 31)
    (hobject : ∀ b, b.length < c.data.length → Covers (.object true) b 0 (objectDecoder fuel b b.length))
    (honce : ∀ b, b.length < c.data.length → Covers (.property true) b 0 (onceDecoder fuel b b.length)) :
    FlowCovers (.property has) c (AMFObject.decodeProperty (fuel + 1) has (c.parsed + c.data.length) c) := by
  by_cases hin : ∃ k t v, nameSize has c.data = some k ∧ c.data.drop k = t :: v
  · obtain ⟨k, t, v, hname, htype⟩ := hin
    obtain ⟨c', hc', hdrop, hread⟩ := decodeProperty_value fuel hname htype
    have hlen := congrArg List.length htype
    rw [List.length_drop, List.length_cons] at hlen
    have hv : c'.data = v := by rw [hc']
    have hdata : c'.data = c.data.drop (k + 1) := hv.trans hdrop
    have hparsed : c'.parsed = c.parsed + (k + 1 : Nat) := by rw [hc']
    have hlt : c'.data.length < c.data.length := by rw [hv]; omega
    rw [hread]
    have hvalue := decodeValue_covers (objectDecoder fuel) (onceDecoder fuel) (nameText has c.data) (.ofCode t) c'
      (Nat.lt_trans hlt hN) (fun b hb => hobject b (Nat.lt_of_le_of_lt hb hlt))
      fun b hb => honce b (Nat.lt_of_le_of_lt hb hlt)
    refine hvalue.shift hdata hparsed fun e he => ?_
    rw [← hdata, hv] at he
    exact .property hname htype he
  · have hnone : ∀ k, nameSize has c.data = some k → c.data.drop k = [] := by
      intro k hname
      cases htype : c.data.drop k with
      | nil => rfl
      | cons t v => exact absurd ⟨k, t, v, hname, htype⟩ hin
    rw [decodeProperty_outside hnone]
    exact rfl

/-- One pass of the loop, the property and the passes behind it being covered. -/
theorem decodeLoop_covers {fuel : Nat} (has : Bool) (c : Cursor)
    (hproperty : FlowCovers (.property has) c (AMFObject.decodeProperty fuel has (c.parsed + c.data.length) c))
    (hloop : ∀ c', c'.data.length < c.data.length →
      Covers (.object has) c'.data c'.parsed (AMFObject.decodeLoop fuel has (c'.parsed + c'.data.length) c')) :
    Covers (.object has) c.data c.parsed (AMFObject.decodeLoop (fuel + 1) has (c.parsed + c.data.length) c) := by
  by_cases hshort : c.data.length < 3
  · rw [decodeLoop_short hshort]
    exact ⟨.behind 0, .short hshort, (Int.add_zero _).symm⟩
  have hlen : 3 ≤ c.data.length := Nat.not_lt.mp hshort
  by_cases h9 : field 3 c.data = 9
  · rw [decodeLoop_marker hlen h9]
    exact ⟨.behind 3, .marker hlen h9, rfl⟩
  rw [decodeLoop_pass hlen h9]
  cases hflow : AMFObject.decodeProperty fuel has (c.parsed + c.data.length) c with
  | error e =>
      rw [hflow] at hproperty
      exact hproperty
  | ok f =>
      rw [hflow] at hproperty
      obtain ⟨e, he, hf⟩ := hproperty
      rw [ok_bind]
      cases e with
      | behind n =>
          obtain ⟨c', rfl, hdata, hparsed⟩ := hf
          have hpos := he.property_pos rfl
          have hle := he.bytes_le rfl
          have hlen' : c'.data.length = c.data.length - n := by rw [hdata, List.length_drop]
          have hsum : c'.parsed + c'.data.length = c.parsed + c.data.length := by omega
          have hrest := hloop c' (by omega)
          rw [hsum] at hrest
          dsimp only
          cases hnext : AMFObject.decodeLoop fuel has (c.parsed + c.data.length) c' with
          | error e =>
              rw [hnext] at hrest
              exact hrest
          | ok r =>
              rw [hnext] at hrest
              obtain ⟨e', he', hr⟩ := hrest
              rw [hdata] at he'
              refine ⟨e'.shift n, .pass hlen h9 he he', ?_⟩
              rw [hr, Extent.ret_shift, hparsed]
      | closed n =>
          obtain ⟨r, rfl, hr⟩ := hf
          exact ⟨.behind n, .leave hlen h9 he, hr⟩
      | refused =>
          obtain ⟨r, rfl, hr⟩ := hf
          exact ⟨.refused, .objectRefused hlen h9 he, hr⟩

/-- With fuel for every byte, loop and property are covered: by induction on the fuel, as each pass
and each level of nesting takes a byte. -/
theorem decode_covers (fuel : Nat) :
    (∀ has c, c.data.length < 2 ^ 31 → 2 * c.data.length + 2 ≤ fuel →
      Covers (.object has) c.data c.parsed (AMFObject.decodeLoop fuel has (c.parsed + c.data.length) c)) ∧
    (∀ has c, c.data.length < 2 ^ 31 → 2 * c.data.length + 1 ≤ fuel →
      FlowCovers (.property has) c (AMFObject.decodeProperty fuel has (c.parsed + c.data.length) c)) := by
  induction fuel with
  | zero => exact ⟨fun has c _ hfuel => absurd hfuel (by omega), fun has c _ hfuel => absurd hfuel (by omega)⟩
  | succ fuel ih =>
      obtain ⟨ihloop, ihproperty⟩ := ih
      constructor
      · intro has c hN hfuel
        refine decodeLoop_covers has c (ihproperty has c hN (by omega)) fun c' hlt => ?_
        exact ihloop has c' (by omega) (by omega)
      · intro has c hN hfuel
        refine decodeProperty_covers has c hN (fun b hb => ?_) fun b hb => ?_
        · have hobject := ihloop true { data := b } (Nat.lt_trans hb hN) (by dsimp only; omega)
          rwa [start_size] at hobject
        · have honce := (ihproperty true { data := b } (Nat.lt_trans hb hN) (by dsimp only; omega)).result
          rwa [start_size] at honce

end Sound

section Complete
variable [Host]

/-- A part of a message is read, and as far as its extent tells. -/
def Reads : Part → List UInt8 → Extent → Prop
  | .object has, b, e => ∀ (fuel : Nat) (c : Cursor), c.data = b → b.length < 2 ^ 31 → 2 * b.length + 2 ≤ fuel →
      ∃ r, AMFObject.decodeLoop fuel has (c.parsed + c.data.length) c = .ok r ∧
        r.ret = e.ret c.parsed
  | .property has, b, e => ∀ (fuel : Nat) (c : Cursor), c.data = b → b.length < 2 ^ 31 → 2 * b.length + 1 ≤ fuel →
      ∃ f, AMFObject.decodeProperty fuel has (c.parsed + c.data.length) c = .ok f ∧ f.Matches c e
  | .value type, b, e => ∀ (fuel : Nat) (name : List UInt8) (c : Cursor), c.data = b → b.length < 2 ^ 31 →
      2 * b.length + 2 ≤ fuel →
      ∃ f, c.decodeValue (objectDecoder fuel) (onceDecoder fuel) name type (c.parsed + c.data.length) = .ok f ∧
        f.Matches c e
  | .elements count, b, e => ∀ (fuel : Nat) (name : List UInt8) (c : Cursor), c.data = b → b.length < 2 ^ 31 →
      2 * b.length + 1 ≤ fuel →
      ∃ f, Cursor.strictArray (onceDecoder fuel) name (c.parsed + c.data.length) count c = .ok f ∧ f.Matches c e

theorem Scan.reads {p : Part} {b : List UInt8} {e : Extent} (h : Scan p b e) : Reads p b e := by
  cases p with
  | object has =>
      rintro fuel c rfl hN hfuel
      obtain ⟨ps, hps⟩ := h.yields hN
      exact ⟨_, hps fuel c rfl hfuel, rfl⟩
  | property has =>
      rintro fuel c rfl hN hfuel
      obtain ⟨ps, hps⟩ := h.yields hN
      exact ⟨_, hps fuel c rfl hfuel, leave_matches c ps e⟩
  | value type =>
      rintro fuel name c rfl hN hfuel
      obtain ⟨ps, hps⟩ := h.yields hN name
      exact ⟨_, hps fuel c rfl hfuel, leave_matches c ps e⟩
  | elements count =>
      rintro fuel name c rfl hN hfuel
      obtain ⟨ps, hps⟩ := h.yields hN name
      exact ⟨_, hps fuel c rfl hfuel, leave_matches c ps e⟩

end Complete

namespace AMFObject

/-- The call returns, has read no byte behind the message, and gives -1 or a number of bytes of it. -/
def StaysInside [Host] (b : List UInt8) (has : Bool) : Prop :=
  ∃ r, decode b b.length has = .ok r ∧ (r.ret = -1 ∨ 0 ≤ r.ret ∧ r.ret ≤ b.length)

/-- No call of `Decode` runs on: it returns or reads behind the message. -/
theorem decode_ends [Host] (b : List UInt8) (has : Bool) (hlen : b.length < 2 ^ 31) :
    Covers (.object has) b 0 (decode b b.length has) := by
  have hcovers := (decode_covers (2 * b.length + 2)).1 has { data := b } hlen (Nat.le_refl _)
  rwa [start_size] at hcovers

/-- Decoding stays inside exactly the messages of the grammar. -/
theorem staysInside_iff [Host] (b : List UInt8) (has : Bool) (hlen : b.length < 2 ^ 31) :
    StaysInside b has ↔ ∃ e, Scan (.object has) b e := by
  constructor
  · rintro ⟨r, hr, -⟩
    have hcovers := decode_ends b has hlen
    rw [hr] at hcovers
    obtain ⟨e, he, -⟩ := hcovers
    exact ⟨e, he⟩
  · rintro ⟨e, he⟩
    obtain ⟨r, hr, hret⟩ := he.reads (2 * b.length + 2) { data := b } rfl hlen (Nat.le_refl _)
    rw [start_size] at hr
    refine ⟨r, hr, ?_⟩
    cases hn : e.bytes with
    | none =>
        obtain rfl := Extent.refused_of_bytes hn
        exact .inl hret
    | some n =>
        have hle := he.bytes_le hn
        have hvalue := hret.trans (Extent.ret_of_bytes hn)
        exact .inr ⟨by omega, by omega⟩

theorem staysInside_string : @StaysInside ⟨fun _ => 0⟩ [2, 0, 1, 97] false := by
  have hvalue : Scan (.value (.ofCode 2)) [0, 1, 97] (.behind 3) := .scalar (by decide)
  have hproperty : Scan (.property false) [2, 0, 1, 97] (.behind 4) := .property rfl rfl hvalue
  exact (@staysInside_iff ⟨fun _ => 0⟩ [2, 0, 1, 97] false (by decide)).mpr
    ⟨.behind 4, .pass (by decide) (by decide) hproperty (.short (by decide))⟩

/-- An ECMA array of three bytes: the count is four. -/
theorem ecmaArray_leaves :
    ¬ ∀ [Host] (b : List UInt8) (has : Bool), b.length < 2 ^ 31 → StaysInside b has := by
  intro h
  obtain ⟨r, hr, -⟩ := @h ⟨fun _ => 0⟩ [8, 0, 0] false (by decide)
  have hcall : @decode ⟨fun _ => 0⟩ [8, 0, 0] ([8, 0, 0] : List UInt8).length false =
      .error .outOfBounds := rfl
  rw [hcall] at hr
  exact absurd hr nofun

end AMFObject
end TmmsServer
