import TmmsServer.Rtmp.AmfTrees

/-!
# Arguments by their position

The command handlers address the values of a message by `Property(int)`. Whether
the value written in a place is found there depends on the whole row: a null gives
no property, and the loop of `Decode` stops in front of the last two bytes.
-/
namespace TmmsServer
open Lib.Words BytesReader

/-- A value of a message that has no parts. -/
inductive AMFScalar where
  | number (bits : UInt64)
  | string (str : List UInt8)
  | boolean (b : Bool)
  | null

namespace AMFScalar

/-- `EncodeNumber`, `EncodeString`, `EncodeBoolean` and the byte `kAMFNull`. -/
def encode : AMFScalar → List UInt8
  | number bits => AMFAny.encodeNumber bits
  | string str => AMFAny.encodeString str
  | boolean b => AMFAny.encodeBoolean b
  | null => amfNull

/-- What is to be found in its place: the value decoded, and a null pointer for a null. -/
def entry [Host] : AMFScalar → Option AMFAny
  | number bits => some (.number [] (Lib.Double.ofUint64 (Double.toUint64 bits)))
  | string str => some (.string [] str)
  | boolean b => some (.boolean [] b)
  | null => none

/-- The length of a string fits its field, and no number begins like an end of object. -/
def Fits : AMFScalar → Prop
  | number bits => bits.toNat / 2 ^ 48 ≠ 9
  | string str => str.length < 2 ^ 16
  | boolean _ => True
  | null => True

instance : DecidablePred Fits
  | number bits => inferInstanceAs (Decidable (bits.toNat / 2 ^ 48 ≠ 9))
  | string str => inferInstanceAs (Decidable (str.length < 2 ^ 16))
  | boolean _ => .isTrue trivial
  | null => .isTrue trivial

theorem entry_eq_none [Host] {v : AMFScalar} (h : v.entry = none) : v = null := by
  cases v with
  | null => rfl
  | number bits => exact absurd h nofun
  | string str => exact absurd h nofun
  | boolean b => exact absurd h nofun

theorem entry_of_ne [Host] {v : AMFScalar} (h : v ≠ null) : ∃ p, v.entry = some p := by
  cases hentry : v.entry with
  | some p => exact ⟨p, rfl⟩
  | none => exact absurd (entry_eq_none hentry) h

theorem encode_length (v : AMFScalar) :
    v = null ∧ v.encode.length = 1 ∨ (∃ b, v = boolean b) ∧ v.encode.length = 2 ∨
      3 ≤ v.encode.length := by
  cases v with
  | null => exact .inl ⟨rfl, rfl⟩
  | boolean b => exact .inr (.inl ⟨⟨b, rfl⟩, rfl⟩)
  | number bits =>
      refine .inr (.inr ?_)
      rw [encode, AMFAny.encodeNumber, List.length_cons, beBytes_length]
      decide
  | string str =>
      refine .inr (.inr ?_)
      rw [encode, AMFAny.encodeString, List.length_cons, List.length_append,
        BytesWriter.writeUint16T, beBytes_length]
      omega

theorem encode_pos (v : AMFScalar) : 1 ≤ v.encode.length := by
  rcases v.encode_length with ⟨-, h⟩ | ⟨-, h⟩ | h
  · omega
  · omega
  · omega

theorem open_or (v : AMFScalar) {rest : List UInt8} (hlen : 3 ≤ (v.encode ++ rest).length) :
    field 3 (v.encode ++ rest) ≠ 9 ∨ field 3 (v.encode ++ rest) = 9 ∧ ¬ v.Fits ∧ v ≠ null := by
  cases v with
  | null => exact .inl (field_lead (t := AMFDataType.null.code) (by decide) hlen)
  | boolean b => exact .inl (field_lead (t := AMFDataType.boolean.code) (by decide) hlen)
  | string str => exact .inl (field_lead (t := AMFDataType.string.code) (by decide) hlen)
  | number bits =>
      have hfield : field 3 ((number bits).encode ++ rest) = bits.toNat / 2 ^ 48 := by
        rw [encode, field_encodeNumber_append, field_encodeNumber]
      by_cases h9 : bits.toNat / 2 ^ 48 = 9
      · exact .inr ⟨hfield.trans h9, fun hfits => hfits h9, nofun⟩
      · exact .inl (hfield ▸ h9)

section Reading
variable [Host]

theorem yields {v : AMFScalar} (hfits : v.Fits) (rest : List UInt8) :
    PropertyYields false (v.encode ++ rest) (.behind v.encode.length) v.entry.toList := by
  cases v with
  | number bits =>
      have hlen : (number bits).encode.length = 1 + 8 := by
        rw [encode, AMFAny.encodeNumber, List.length_cons, beBytes_length]
      rw [hlen]
      exact PropertyYields.unnamed rfl (ValueYields.number [] bits rest)
  | string str =>
      have hlen : (string str).encode.length = 1 + (2 + str.length) := by
        rw [encode, AMFAny.encodeString, List.length_cons, List.length_append,
          BytesWriter.writeUint16T, beBytes_length]
        omega
      have hbytes : (string str).encode ++ rest = AMFDataType.string.code ::
          (BytesWriter.writeUint16T (UInt16.ofNat str.length) ++ (str ++ rest)) := by
        rw [encode, AMFAny.encodeString, List.cons_append, List.append_assoc]
      rw [hlen, hbytes]
      exact PropertyYields.unnamed rfl (ValueYields.string [] hfits rest)
  | boolean b => exact PropertyYields.unnamed rfl (ValueYields.boolean [] b rest)
  | null => exact PropertyYields.unnamed rfl (ValueYields.null [] rest)

theorem yields_long {str : List UInt8} (hlong : ¬ (string str).Fits) (rest : List UInt8) :
    ∃ (n : Nat) (short : List UInt8), short ≠ str ∧
      PropertyYields false ((string str).encode ++ rest) (.behind n) [.string [] short] := by
  have hle : 2 ^ 16 ≤ str.length := Nat.not_lt.mp hlong
  have hmod : str.length % 2 ^ 16 < 2 ^ 16 := Nat.mod_lt _ (Nat.two_pow_pos 16)
  have hshort : (str.take (str.length % 2 ^ 16)).length = str.length % 2 ^ 16 := by
    rw [List.length_take]
    omega
  have hfield : UInt16.ofNat str.length = UInt16.ofNat (str.take (str.length % 2 ^ 16)).length := by
    refine UInt16.toNat_inj.mp ?_
    rw [hshort, UInt16.toNat_ofNat', UInt16.toNat_ofNat', Nat.mod_mod]
  have hbytes : (string str).encode ++ rest = AMFDataType.string.code ::
      (BytesWriter.writeUint16T (UInt16.ofNat (str.take (str.length % 2 ^ 16)).length) ++
        (str.take (str.length % 2 ^ 16) ++ (str.drop (str.length % 2 ^ 16) ++ rest))) := by
    have hsplit := List.take_append_drop (str.length % 2 ^ 16) str
    rw [encode, AMFAny.encodeString, List.cons_append, List.append_assoc, hfield,
      ← List.append_assoc (str.take _), hsplit]
  refine ⟨1 + (2 + (str.take (str.length % 2 ^ 16)).length), str.take (str.length % 2 ^ 16), ?_, ?_⟩
  · intro heq
    rw [heq] at hshort
    omega
  · rw [hbytes]
    exact PropertyYields.unnamed rfl (ValueYields.string [] (by rw [hshort]; exact hmod) _)

theorem fits_of_read {v : AMFScalar} {rest : List UInt8} (hnull : v ≠ null)
    (hlen : 3 ≤ (v.encode ++ rest).length) (hopen : field 3 (v.encode ++ rest) ≠ 9)
    (hread : ∀ n p, PropertyYields false (v.encode ++ rest) (.behind n) [p] → v.entry = some p) :
    v.Fits := by
  by_contra hunfit
  rcases v.open_or hlen with h | ⟨h, -, -⟩
  · cases v with
    | number bits =>
        refine hunfit fun h9 => h ?_
        rw [encode, field_encodeNumber_append, field_encodeNumber]
        exact h9
    | boolean b => exact hunfit trivial
    | null => exact hnull rfl
    | string str =>
        obtain ⟨n, short, hne, hshort⟩ := yields_long hunfit rest
        have hentry := hread n _ hshort
        exact hne (AMFAny.string.inj (Option.some.inj hentry)).2.symm
  · exact hopen h

end Reading
end AMFScalar

/-- Nothing that is not null comes behind a null, the last value is no boolean, and all fit. -/
structure KeepsPositions (vs : List AMFScalar) : Prop where
  ordered : vs.Pairwise fun a b => a = .null → b = .null
  last : ∀ b, vs.getLast? ≠ some (.boolean b)
  fits : ∀ v ∈ vs, v.Fits

/-- Decoded, each value is found in its place, and nothing behind the last. -/
def Positioned [Host] (vs : List AMFScalar) : Prop :=
  ∃ r, AMFObject.decode (vs.flatMap AMFScalar.encode) (vs.flatMap AMFScalar.encode).length false = .ok r ∧
    (∀ i (h : i < vs.length), AMFObject.property r.properties i = vs[i].entry) ∧
    AMFObject.property r.properties vs.length = none

theorem property_natCast (ps : List AMFAny) (i : Nat) : AMFObject.property ps i = ps[i]? := by
  rw [AMFObject.property, if_neg (by omega), Int.toNat_natCast]

section Rows
variable [Host] {vs : List AMFScalar}

theorem entries_short (hlast : ∀ b, vs.getLast? ≠ some (.boolean b))
    (hlen : (vs.flatMap AMFScalar.encode).length < 3) : vs.filterMap AMFScalar.entry = [] := by
  induction vs with
  | nil => rfl
  | cons v vs ih =>
      rw [List.flatMap_cons, List.length_append] at hlen
      rcases v.encode_length with ⟨rfl, hone⟩ | ⟨⟨b, rfl⟩, htwo⟩ | hthree
      · rw [List.filterMap_cons_none rfl]
        refine ih (fun b hb => hlast b ?_) (by omega)
        cases vs with
        | nil => exact absurd hb nofun
        | cons w ws => exact hb
      · -- one byte is left, and none comes behind the boolean
        cases vs with
        | nil => exact absurd rfl (hlast b)
        | cons w ws =>
            have hw : w = .null := by
              rw [List.flatMap_cons, List.length_append] at hlen
              rcases w.encode_length with ⟨hw, -⟩ | ⟨-, hw⟩ | hw
              · exact hw
              · omega
              · omega
            rw [List.flatMap_cons, List.length_append, hw] at hlen
            exact absurd hlen (by change ¬ 2 + (1 + _) < 3; omega)
      · omega

/-- A row of values that fit is read as their entries, nulls being passed over: by induction on
the row. -/
theorem row_yields (hlast : ∀ b, vs.getLast? ≠ some (.boolean b)) (hfits : ∀ v ∈ vs, v.Fits) :
    ∃ n, ObjectYields false (vs.flatMap AMFScalar.encode) (.behind n) (vs.filterMap AMFScalar.entry) := by
  induction vs with
  | nil => exact ⟨0, .short (by decide)⟩
  | cons v vs ih =>
      have hlast' : ∀ b, vs.getLast? ≠ some (.boolean b) := by
        intro b hb
        refine hlast b ?_
        cases vs with
        | nil => exact absurd hb nofun
        | cons w ws => exact hb
      obtain ⟨n, hrest⟩ := ih hlast' fun w hw => hfits w (List.mem_cons_of_mem _ hw)
      have hv := hfits v List.mem_cons_self
      by_cases hshort : ((v :: vs).flatMap AMFScalar.encode).length < 3
      · rw [entries_short hlast hshort]
        exact ⟨0, .short hshort⟩
      · rw [List.flatMap_cons] at hshort ⊢
        have hopen : field 3 (v.encode ++ vs.flatMap AMFScalar.encode) ≠ 9 := by
          rcases v.open_or (Nat.not_lt.mp hshort) with h | ⟨-, h, -⟩
          · exact h
          · exact absurd hv h
        have hle : v.encode.length ≤ (v.encode ++ vs.flatMap AMFScalar.encode).length := by
          rw [List.length_append]
          exact Nat.le_add_right _ _
        have hpass := ObjectYields.pass (Nat.not_lt.mp hshort) hopen (AMFScalar.yields hv _) v.encode_pos hle
          (by rw [List.drop_left]; exact hrest)
        have hentries : v.entry.toList ++ vs.filterMap AMFScalar.entry =
            (v :: vs).filterMap AMFScalar.entry := by
          cases hentry : v.entry with
          | none => rw [List.filterMap_cons_none hentry]; rfl
          | some p => rw [List.filterMap_cons_some hentry]; rfl
        rw [hentries] at hpass
        exact ⟨_, hpass⟩

theorem entries_at (hordered : vs.Pairwise fun a b => a = .null → b = .null) (i : Nat) :
    (vs.filterMap AMFScalar.entry)[i]? = vs[i]?.bind AMFScalar.entry := by
  induction vs generalizing i with
  | nil => rfl
  | cons v vs ih =>
      obtain ⟨hfirst, hrest⟩ := List.pairwise_cons.mp hordered
      cases hentry : v.entry with
      | some p =>
          rw [List.filterMap_cons_some hentry]
          cases i with
          | zero => exact hentry.symm
          | succ i => exact ih hrest i
      | none =>
          have hnull := hfirst
          rw [AMFScalar.entry_eq_none hentry] at hnull
          have hnone : ∀ w ∈ v :: vs, AMFScalar.entry w = none := by
            intro w hw
            rcases List.mem_cons.mp hw with rfl | hw
            · exact hentry
            · rw [hnull w hw rfl]
              rfl
          rw [List.filterMap_eq_nil_iff.mpr hnone]
          cases hw : (v :: vs)[i]? with
          | none => rfl
          | some w => exact (hnone w (List.mem_of_getElem? hw)).symm

/-- A run of the loop that puts a property in the next place makes a pass, and the pass adds it. -/
theorem pass_of_found {fuel : Nat} {c : Cursor} {r : Decoded} {p : AMFAny}
    (hfuel : 2 * c.data.length + 1 ≤ fuel)
    (hrun : AMFObject.decodeLoop (fuel + 1) false (c.parsed + c.data.length) c = .ok r)
    (hfound : r.properties[c.properties.length]? = some p) :
    3 ≤ c.data.length ∧ field 3 c.data ≠ 9 ∧
      ∀ {n : Nat} {q : AMFAny}, PropertyYields false c.data (.behind n) [q] → q = p ∧
        AMFObject.decodeLoop fuel false (c.parsed + c.data.length)
          ⟨c.data.drop n, c.parsed + n, c.properties ++ [q]⟩ = .ok r := by
  have hmissing : c.properties ≠ r.properties := by
    intro heq
    rw [← heq, List.getElem?_eq_none (Nat.le_refl _)] at hfound
    exact absurd hfound nofun
  have hlen : 3 ≤ c.data.length := by
    by_contra hshort
    rw [decodeLoop_short (Nat.not_le.mp hshort)] at hrun
    exact hmissing (congrArg Decoded.properties (Except.ok.inj hrun))
  have hopen : field 3 c.data ≠ 9 := by
    intro hmark
    rw [decodeLoop_marker hlen hmark] at hrun
    exact hmissing (congrArg Decoded.properties (Except.ok.inj hrun))
  refine ⟨hlen, hopen, ?_⟩
  intro n q hflow
  rw [decodeLoop_pass hlen hopen, hflow fuel c rfl hfuel, ok_bind] at hrun
  obtain ⟨more, hmore⟩ := decodeLoop_opens _ _ _ _ _ hrun
  rw [← hmore, List.append_assoc, List.getElem?_append_right (Nat.le_refl _),
    Nat.sub_self] at hfound
  exact ⟨Option.some.inj hfound, hrun⟩

/-- A run of the loop that leaves every value in its place has taken values that fit, and no
boolean was the last: by induction on the row. -/
theorem keeps_of_found {fuel : Nat} {c : Cursor} {r : Decoded}
    (hordered : vs.Pairwise fun a b => a = .null → b = .null)
    (hdata : c.data = vs.flatMap AMFScalar.encode) (hfuel : 2 * c.data.length + 2 ≤ fuel)
    (hrun : AMFObject.decodeLoop fuel false (c.parsed + c.data.length) c = .ok r)
    (hfound : ∀ i v, vs[i]? = some v → r.properties[c.properties.length + i]? = v.entry) :
    (∀ v ∈ vs, v.Fits) ∧ ∀ b, vs.getLast? ≠ some (.boolean b) := by
  induction vs generalizing fuel c with
  | nil => exact ⟨nofun, nofun⟩
  | cons v vs ih =>
      obtain ⟨hfirst, hrest⟩ := List.pairwise_cons.mp hordered
      by_cases hnull : v = .null
      · -- nothing but nulls is left
        have hall : ∀ w ∈ v :: vs, w = .null := by
          intro w hw
          rcases List.mem_cons.mp hw with rfl | hw
          · exact hnull
          · exact hfirst w hw hnull
        refine ⟨fun w hw => by rw [hall w hw]; trivial, fun b hb => ?_⟩
        exact absurd (hall _ (List.mem_of_getLast? hb)) nofun
      obtain ⟨p, hentry⟩ := AMFScalar.entry_of_ne hnull
      obtain ⟨fuel, rfl⟩ : ∃ less, fuel = less + 1 := ⟨fuel - 1, by omega⟩
      rw [List.flatMap_cons] at hdata
      obtain ⟨hlen, hopen, hadds⟩ := pass_of_found (by omega) hrun ((hfound 0 v rfl).trans hentry)
      have hfits : v.Fits := by
        rw [hdata] at hlen hopen
        refine AMFScalar.fits_of_read hnull hlen hopen ?_
        intro n q hflow
        rw [← hdata] at hflow
        rw [(hadds hflow).1, hentry]
      have hflow := AMFScalar.yields hfits (vs.flatMap AMFScalar.encode)
      rw [hentry, ← hdata] at hflow
      obtain ⟨-, hloop⟩ := hadds hflow
      have hpos := v.encode_pos
      have hsum : c.data.length = v.encode.length + (vs.flatMap AMFScalar.encode).length := by
        rw [hdata, List.length_append]
      have hdrop : c.data.drop v.encode.length = vs.flatMap AMFScalar.encode := by
        rw [hdata, List.drop_left]
      have hsize : c.parsed + v.encode.length + (vs.flatMap AMFScalar.encode).length =
          c.parsed + c.data.length := by omega
      rw [hdrop, ← hsize] at hloop
      obtain ⟨hrestFits, hrestLast⟩ := ih
        (c := ⟨vs.flatMap AMFScalar.encode, c.parsed + v.encode.length, c.properties ++ [p]⟩) hrest rfl
        (by dsimp only; omega) hloop fun i w hw => by
          have hat := hfound (i + 1) w hw
          dsimp only
          rw [List.length_append, List.length_singleton, Nat.add_assoc, Nat.add_comm 1 i]
          exact hat
      refine ⟨fun w hw => ?_, fun b hb => ?_⟩
      · rcases List.mem_cons.mp hw with rfl | hw
        · exact hfits
        · exact hrestFits w hw
      · cases vs with
        | nil =>
            obtain rfl := Option.some.inj hb
            rw [hdata] at hlen
            exact absurd hlen (by change ¬ 3 ≤ 2; decide)
        | cons w ws => exact hrestLast b hb

theorem Positioned.place {r : Decoded}
    (hfound : ∀ i (h : i < vs.length), AMFObject.property r.properties i = vs[i].entry)
    {i : Nat} {v : AMFScalar} (hv : vs[i]? = some v) : r.properties[i]? = v.entry := by
  obtain ⟨hi, hget⟩ := List.getElem?_eq_some_iff.mp hv
  rw [← property_natCast, hfound i hi, hget]

/-- Nothing is found in the place of a null, so nothing behind it. -/
theorem Positioned.ordered (h : Positioned vs) : vs.Pairwise fun a b => a = .null → b = .null := by
  obtain ⟨r, -, hfound, -⟩ := h
  rw [List.pairwise_iff_getElem]
  intro i j hi hj hij hnull
  by_contra hne
  obtain ⟨p, hp⟩ := AMFScalar.entry_of_ne hne
  have hgone := Positioned.place hfound (List.getElem?_eq_getElem hi)
  have hthere := (Positioned.place hfound (List.getElem?_eq_getElem hj)).trans hp
  rw [hnull] at hgone
  have hle : r.properties.length ≤ i := List.getElem?_eq_none_iff.mp hgone
  obtain ⟨hlt, -⟩ := List.getElem?_eq_some_iff.mp hthere
  omega

/-- Exactly in these rows every value is found in its place. -/
theorem positioned_iff (vs : List AMFScalar) : Positioned vs ↔ KeepsPositions vs := by
  constructor
  · intro h
    have hordered := h.ordered
    obtain ⟨r, hrun, hfound, -⟩ := h
    have hloop : AMFObject.decodeLoop (2 * (vs.flatMap AMFScalar.encode).length + 2) false
        (vs.flatMap AMFScalar.encode).length { data := vs.flatMap AMFScalar.encode } = .ok r := hrun
    rw [← start_size] at hloop
    have hplace : ∀ i v, vs[i]? = some v →
        r.properties[([] : List AMFAny).length + i]? = AMFScalar.entry v := by
      intro i v hv
      rw [List.length_nil, Nat.zero_add]
      exact Positioned.place hfound hv
    obtain ⟨hfits, hlast⟩ := keeps_of_found hordered rfl (Nat.le_refl _) hloop hplace
    exact ⟨hordered, hlast, hfits⟩
  · intro h
    obtain ⟨n, hrow⟩ := row_yields h.last h.fits
    refine ⟨_, hrow.decode, fun i hi => ?_, ?_⟩
    · rw [property_natCast, entries_at h.ordered, List.getElem?_eq_getElem hi]
      rfl
    · rw [property_natCast, entries_at h.ordered, List.getElem?_eq_none (Nat.le_refl _)]
      rfl

end Rows

/-- An `_error` message has a null in third place, and what stands behind it is found there. -/
theorem error_shifts : ¬ ∃ _ : Host, ∀ vs : List AMFScalar, vs ≠ [] → Positioned vs := by
  rintro ⟨host, h⟩
  have hordered := (h [.string (text "_error"), .number (whole 4), .null,
    .string (text "rejected")] nofun).ordered
  rw [List.pairwise_iff_getElem] at hordered
  have hnull := hordered 2 3 (by decide) (by decide) (by decide) rfl
  exact absurd hnull nofun

end TmmsServer
