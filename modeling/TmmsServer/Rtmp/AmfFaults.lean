import TmmsServer.Rtmp.Amf

/-!
# What ends the AMF decoder

`Decode` is called with a pointer and a size, and does not know how much memory
is behind the pointer. Whatever is there, and whatever the size, a run of it
returns or leaves that memory.
-/
namespace TmmsServer
open BytesReader

/-- The run returns, or leaves the memory behind its pointer. -/
def OnlyLeaves {α : Type} (x : Checked α) : Prop := ∀ e, x = .error e → e = .outOfBounds

namespace OnlyLeaves
variable {α β : Type}

theorem ok (a : α) : OnlyLeaves (.ok a) := nofun

theorem bind {x : Checked α} {f : α → Checked β} (hx : OnlyLeaves x)
    (hf : ∀ a, x = .ok a → OnlyLeaves (f a)) : OnlyLeaves (x >>= f) := by
  cases x with
  | ok a => exact hf a rfl
  | error e =>
      intro e' he
      rw [error_bind] at he
      rw [← Except.error.inj he]
      exact hx e rfl

theorem map {x : Checked α} (f : α → β) (hx : OnlyLeaves x) : OnlyLeaves (x.map f) := by
  cases x with
  | ok a => exact ok (f a)
  | error e =>
      intro e' he
      rw [← Except.error.inj he]
      exact hx e rfl

end OnlyLeaves

theorem readBytes_leaves (data : List UInt8) (off n : Nat) : OnlyLeaves (readBytes data off n) := by
  intro e he
  unfold readBytes at he
  split at he
  · exact absurd he nofun
  · exact (Except.error.inj he).symm

theorem decodeString_leaves (data : List UInt8) : OnlyLeaves (AMFAny.decodeString data) := by
  apply OnlyLeaves.bind ((readBytes_leaves _ _ _).map _)
  intro len _
  split
  · exact readBytes_leaves _ _ _
  · exact OnlyLeaves.ok _

section Scalars
variable (name data : List UInt8) (size : Int)

theorem AMFNumber.decode_leaves [Host] : OnlyLeaves (AMFNumber.decode name data size) := by
  unfold AMFNumber.decode
  split
  · exact ((readBytes_leaves _ _ _).map _).bind fun _ _ => OnlyLeaves.ok _
  · exact OnlyLeaves.ok _

theorem AMFBoolean.decode_leaves : OnlyLeaves (AMFBoolean.decode name data size) := by
  unfold AMFBoolean.decode
  split
  · exact ((readBytes_leaves _ _ _).map _).bind fun _ _ => OnlyLeaves.ok _
  · exact OnlyLeaves.ok _

theorem AMFString.decode_leaves : OnlyLeaves (AMFString.decode name data size) := by
  unfold AMFString.decode
  split
  · exact OnlyLeaves.ok _
  · apply OnlyLeaves.bind ((readBytes_leaves _ _ _).map _)
    intro len _
    split
    · exact OnlyLeaves.ok _
    · exact (decodeString_leaves data).bind fun _ _ => OnlyLeaves.ok _

theorem AMFDate.decode_leaves [Host] : OnlyLeaves (AMFDate.decode name data size) := by
  unfold AMFDate.decode
  split
  · exact OnlyLeaves.ok _
  · apply OnlyLeaves.bind ((readBytes_leaves _ _ _).map _)
    intro utc _
    exact ((readBytes_leaves _ _ _).map _).bind fun _ _ => OnlyLeaves.ok _

theorem AMFLongString.decode_leaves : OnlyLeaves (AMFLongString.decode name data size) := by
  unfold AMFLongString.decode
  split
  · exact OnlyLeaves.ok _
  · apply OnlyLeaves.bind ((readBytes_leaves _ _ _).map _)
    intro len _
    split
    · exact OnlyLeaves.ok _
    · exact (readBytes_leaves _ _ _).bind fun _ _ => OnlyLeaves.ok _

end Scalars

/-- A step of the decoder returns or leaves its memory; when the decoder goes on there are `n` bytes at most. -/
def StepsWithin (n : Nat) (x : Checked Flow) : Prop :=
  OnlyLeaves x ∧ ∀ c, x = .ok (.next c) → c.data.length ≤ n

theorem stepsWithin_ok {n : Nat} {c : Cursor} (h : c.data.length ≤ n) : StepsWithin n (.ok (.next c)) := by
  refine ⟨OnlyLeaves.ok _, fun c' hc => ?_⟩
  injection Except.ok.inj hc with hc
  rwa [← hc]

theorem stepsWithin_done (n : Nat) (r : Decoded) : StepsWithin n (.ok (.done r)) :=
  ⟨OnlyLeaves.ok _, nofun⟩

theorem StepsWithin.bind {n : Nat} {α : Type} {x : Checked α} {f : α → Checked Flow} (hx : OnlyLeaves x)
    (hf : ∀ a, x = .ok a → StepsWithin n (f a)) : StepsWithin n (x >>= f) := by
  refine ⟨hx.bind fun a ha => (hf a ha).1, fun c hc => ?_⟩
  obtain ⟨a, ha, hfa⟩ := of_bind_ok hc
  exact (hf a ha).2 c hfa

theorem advance_length_le (c : Cursor) (n : Int) : (c.advance n).data.length ≤ c.data.length := by
  show (c.data.drop n.toNat).length ≤ c.data.length
  rw [List.length_drop]
  exact Nat.sub_le _ _

section Values
variable {n : Nat} {c : Cursor} {decode once : List UInt8 → Int → Checked Decoded}

theorem take_within {α : Type} {x : Checked α} (f : α → Int × AMFAny) (hx : OnlyLeaves x) (hc : c.data.length ≤ n) :
    StepsWithin n (x.map fun a => c.take (f a)) := by
  refine ⟨hx.map _, fun c' hc' => ?_⟩
  obtain ⟨r, -, hr⟩ := of_map_ok hc'
  unfold Cursor.take at hr
  split at hr
  · exact absurd hr nofun
  · injection hr with hr
    rw [← hr]
    exact Nat.le_trans (advance_length_le c _) hc

theorem strictArray_within (honce : ∀ b size, b.length ≤ n → OnlyLeaves (once b size)) (name : List UInt8)
    (size : Int) (count : Nat) (c : Cursor) (hc : c.data.length ≤ n) :
    StepsWithin n (Cursor.strictArray once name size count c) := by
  induction count generalizing c with
  | zero => exact stepsWithin_ok hc
  | succ count ih =>
      apply StepsWithin.bind (honce _ _ hc)
      intro r _
      split
      · exact stepsWithin_done _ _
      · exact ih _ (Nat.le_trans (advance_length_le c _) hc)

variable [Host]

theorem decodeValue_within (hdecode : ∀ b size, b.length ≤ n → OnlyLeaves (decode b size))
    (honce : ∀ b size, b.length ≤ n → OnlyLeaves (once b size)) (hc : c.data.length ≤ n) (name : List UInt8)
    (type : AMFDataType) (size : Int) : StepsWithin n (c.decodeValue decode once name type size) := by
  have hadvance : (c.advance 4).data.length ≤ n := Nat.le_trans (advance_length_le c _) hc
  cases type with
  | number => exact take_within id (AMFNumber.decode_leaves _ _ _) hc
  | boolean => exact take_within id (AMFBoolean.decode_leaves _ _ _) hc
  | string => exact take_within id (AMFString.decode_leaves _ _ _) hc
  | object => exact take_within (fun r => (r.ret, .object name r.properties)) (hdecode _ _ hc) hc
  | ecmaArray =>
      apply StepsWithin.bind ((readBytes_leaves _ _ _).map _)
      intro count _
      exact take_within (fun r => (r.ret, .object name r.properties)) (hdecode _ _ hadvance) hadvance
  | objectEnd => exact stepsWithin_done _ _
  | strictArray =>
      apply StepsWithin.bind ((readBytes_leaves _ _ _).map _)
      intro count _
      exact strictArray_within honce _ _ _ _ hadvance
  | date => exact take_within id (AMFDate.decode_leaves _ _ _) hc
  | longString => exact take_within id (AMFLongString.decode_leaves _ _ _) hc
  | _ => exact stepsWithin_ok hc

end Values

theorem readName_leaves (c : Cursor) (has : Bool) : OnlyLeaves (c.readName has) := by
  unfold Cursor.readName
  split
  · exact (decodeString_leaves _).bind fun _ _ => OnlyLeaves.ok _
  · exact OnlyLeaves.ok _

theorem readName_length_le {c : Cursor} {has : Bool} {named : List UInt8 × Cursor}
    (h : c.readName has = .ok named) : named.2.data.length ≤ c.data.length := by
  unfold Cursor.readName at h
  split at h
  · obtain ⟨name, -, hname⟩ := of_bind_ok h
    rw [← Except.ok.inj hname]
    dsimp only
    split
    · exact Nat.le_refl _
    · exact advance_length_le c _
  · rw [← Except.ok.inj h]

section Decoder
variable [Host]

/-- By induction on the fuel the two functions share: a property takes a byte at least, and so does each level. -/
theorem decodeLoop_leaves (fuel : Nat) :
    (∀ has size c, 2 * c.data.length + 2 ≤ fuel → OnlyLeaves (AMFObject.decodeLoop fuel has size c)) ∧
      ∀ has size c, 2 * c.data.length + 1 ≤ fuel →
        StepsWithin (c.data.length - 1) (AMFObject.decodeProperty fuel has size c) := by
  induction fuel with
  | zero => exact ⟨fun _ _ _ h => absurd h (by omega), fun _ _ _ h => absurd h (by omega)⟩
  | succ fuel ih =>
      constructor
      · intro has size c hfuel
        unfold AMFObject.decodeLoop
        split
        next =>
          apply OnlyLeaves.bind ((readBytes_leaves _ _ _).map _)
          intro mark hmark
          obtain ⟨bs, hbs, -⟩ := of_map_ok hmark
          have hlen := (readBytes_ok hbs).1
          split
          · exact OnlyLeaves.ok _
          · obtain ⟨hleaves, hnext⟩ := ih.2 has size c (by omega)
            apply OnlyLeaves.bind hleaves
            intro flow hflow
            cases flow with
            | next c' =>
                have hless := hnext c' hflow
                exact ih.1 has size c' (by omega)
            | done r => exact OnlyLeaves.ok _
        next => exact OnlyLeaves.ok _
      · intro has size c hfuel
        unfold AMFObject.decodeProperty
        apply StepsWithin.bind (readName_leaves c has)
        intro named hnamed
        have hname := readName_length_le hnamed
        apply StepsWithin.bind ((readBytes_leaves _ _ _).map _)
        intro type htype
        obtain ⟨bs, hbs, -⟩ := of_map_ok htype
        have hlen := (readBytes_ok hbs).1
        have hbehind : (named.2.advance 1).data.length ≤ c.data.length - 1 := by
          show (named.2.data.drop 1).length ≤ c.data.length - 1
          rw [List.length_drop]
          omega
        refine decodeValue_within (fun b size hb => ?_) (fun b size hb => ?_) hbehind _ _ _
        · exact ih.1 true size { data := b } (by show 2 * b.length + 2 ≤ fuel; omega)
        · exact (ih.2 true size { data := b } (by show 2 * b.length + 1 ≤ fuel; omega)).1.map _

/-- `Decode` returns or leaves its memory, whatever it is given. -/
theorem decode_leaves (data : List UInt8) (size : Int) (has : Bool) : OnlyLeaves (AMFObject.decode data size has) :=
  (decodeLoop_leaves _).1 has size { data } (Nat.le_refl _)

end Decoder

end TmmsServer
