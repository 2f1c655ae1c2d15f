import TmmsServer.Rtmp.AmfGrammar

/-!
# The passes of the AMF decoder

What reading a name, a scalar, an element and a property does to the cursor, in
terms of the bytes in front of it.
-/
namespace TmmsServer
open Lib.Words BytesReader

section Fields
variable {b : List UInt8}

theorem field_lt (n : Nat) (h : n ≤ b.length) : field n b < 256 ^ n := by
  have hlen : (b.take n).length = n := by rw [List.length_take]; omega
  have hlt := beValue_lt (b.take n)
  rwa [hlen] at hlt

theorem readUint16T_field (h : 2 ≤ b.length) :
    ∃ v, readUint16T b 0 = .ok v ∧ v.toNat = field 2 b := by
  refine ⟨UInt16.ofNat (field 2 b), by rw [readUint16T, readBytes_of_le (by omega)]; rfl, ?_⟩
  rw [UInt16.toNat_ofNat']
  exact Nat.mod_eq_of_lt (field_lt 2 h)

theorem readUint24T_field (h : 3 ≤ b.length) :
    ∃ v, readUint24T b 0 = .ok v ∧ v.toNat = field 3 b := by
  refine ⟨UInt32.ofNat (field 3 b), by rw [readUint24T, readBytes_of_le (by omega)]; rfl, ?_⟩
  rw [UInt32.toNat_ofNat']
  exact Nat.mod_eq_of_lt (Nat.lt_of_lt_of_le (field_lt 3 h) (by decide))

theorem readUint32T_field (h : 4 ≤ b.length) :
    ∃ v, readUint32T b 0 = .ok v ∧ v.toNat = field 4 b := by
  refine ⟨UInt32.ofNat (field 4 b), by rw [readUint32T, readBytes_of_le (by omega)]; rfl, ?_⟩
  rw [UInt32.toNat_ofNat']
  exact Nat.mod_eq_of_lt (field_lt 4 h)

theorem readBytes_outside {off n : Nat} (h : b.length < off + n) :
    readBytes b off n = .error .outOfBounds :=
  if_neg (Nat.not_le.mpr h)

theorem decodeString_inside (h : 2 ≤ b.length) (hin : 2 + field 2 b ≤ b.length) :
    AMFAny.decodeString b = .ok ((b.drop 2).take (field 2 b)) := by
  obtain ⟨len, hlen, hval⟩ := readUint16T_field h
  unfold AMFAny.decodeString
  rw [hlen, ok_bind]
  split
  next => rw [readBytes_of_le (by omega), hval]
  next hzero =>
    rw [UInt16.lt_iff_toNat_lt] at hzero
    have h0 : field 2 b = 0 := Nat.eq_zero_of_not_pos (hval ▸ hzero)
    rw [h0]
    rfl

theorem stringText_length (hin : 2 + field 2 b ≤ b.length) :
    ((b.drop 2).take (field 2 b)).length = field 2 b := by
  rw [List.length_take, List.length_drop]
  omega

theorem decodeString_outside (h : ¬ (2 ≤ b.length ∧ 2 + field 2 b ≤ b.length)) :
    AMFAny.decodeString b = .error .outOfBounds := by
  unfold AMFAny.decodeString
  by_cases h2 : 2 ≤ b.length
  · obtain ⟨len, hlen, hval⟩ := readUint16T_field h2
    have hpos : 0 < len := by
      rw [UInt16.lt_iff_toNat_lt, hval]
      exact Nat.pos_of_ne_zero fun h0 => h ⟨h2, by rw [h0]; exact h2⟩
    rw [hlen, ok_bind, if_pos hpos]
    exact readBytes_outside (by omega)
  · rw [readUint16T, readBytes_outside (by omega)]
    rfl

end Fields

/-- The name the bytes begin with. -/
def nameText (has : Bool) (b : List UInt8) : List UInt8 :=
  if has then (b.drop 2).take (field 2 b) else []

/-- A name is read where it lies inside, and nowhere else. -/
theorem readName_cases (c : Cursor) (has : Bool) :
    match nameSize has c.data with
    | some k => c.readName has = .ok (nameText has c.data, ⟨c.data.drop k, c.parsed + k, c.properties⟩)
    | none => c.readName has = .error .outOfBounds := by
  unfold nameSize Cursor.readName nameText
  cases has with
  | false =>
      change Except.ok ([], c) = Except.ok ([], ⟨c.data, c.parsed + (0 : Int), c.properties⟩)
      rw [Int.add_zero]
  | true =>
      rw [if_neg Bool.false_ne_true.symm, if_pos rfl, if_pos rfl]
      by_cases hin : 2 ≤ c.data.length ∧ 2 + field 2 c.data ≤ c.data.length
      · have hlen := stringText_length hin.2
        rw [if_pos hin, decodeString_inside hin.1 hin.2, ok_bind]
        generalize (c.data.drop 2).take (field 2 c.data) = s at hlen
        by_cases h0 : field 2 c.data = 0
        · obtain rfl : s = [] := List.eq_nil_of_length_eq_zero (hlen.trans h0)
          rw [if_pos h0, if_pos rfl]
          change Except.ok ([], c) = Except.ok ([], ⟨c.data, c.parsed + (0 : Int), c.properties⟩)
          rw [Int.add_zero]
        · have hne : s ≠ [] := fun hnil => h0 (by rw [← hlen, hnil]; rfl)
          have hskip : ((s.length : Int) + 2).toNat = 2 + field 2 c.data := by omega
          have hsum : c.parsed + ((s.length : Int) + 2) =
              c.parsed + (2 + field 2 c.data : Nat) := by omega
          rw [if_neg h0, if_neg hne, Cursor.advance, hskip, hsum]
          rfl
      · rw [if_neg hin, decodeString_outside hin]
        rfl

/-- The switch, entered at `c`, is left as the extent of what it reads tells. -/
def Flow.Matches (c : Cursor) (f : Flow) : Extent → Prop
  | .behind n => ∃ c', f = .next c' ∧ c'.data = c.data.drop n ∧ c'.parsed = c.parsed + n
  | e => ∃ r, f = .done r ∧ r.ret = e.ret c.parsed

theorem Flow.Matches.shift {c c' : Cursor} {f : Flow} {e : Extent} {k : Nat} (h : f.Matches c' e)
    (hdata : c'.data = c.data.drop k) (hparsed : c'.parsed = c.parsed + k) :
    f.Matches c (e.shift k) := by
  cases e with
  | behind n =>
      obtain ⟨c'', hf, hd, hp⟩ := h
      refine ⟨c'', hf, ?_, ?_⟩
      · rw [hd, hdata, List.drop_drop]
      · rw [hp, hparsed, Int.add_assoc]
        rfl
  | closed n =>
      obtain ⟨r, hf, hr⟩ := h
      refine ⟨r, hf, ?_⟩
      rw [hr, Extent.ret_shift, hparsed]
  | refused => exact h

theorem Flow.Matches.result {c : Cursor} {f : Flow} {e : Extent} (h : f.Matches c e) :
    f.result.ret = e.ret c.parsed := by
  cases e with
  | behind n =>
      obtain ⟨c', rfl, -, hparsed⟩ := h
      exact hparsed
  | closed n =>
      obtain ⟨r, rfl, hr⟩ := h
      exact hr
  | refused =>
      obtain ⟨r, rfl, hr⟩ := h
      exact hr

theorem take_matches (c : Cursor) (p : AMFAny) {e : Extent} (h : ∀ n, e ≠ .closed n) :
    (c.take (e.ret 0, p)).Matches c e := by
  cases e with
  | behind n =>
      have hne : Extent.ret 0 (.behind n) ≠ -1 := by
        change (0 : Int) + n ≠ -1
        omega
      refine ⟨(c.advance (Extent.ret 0 (.behind n))).emplace p, if_neg hne, ?_, ?_⟩
      · change c.data.drop ((0 : Int) + n).toNat = _
        rw [Int.zero_add, Int.toNat_natCast]
      · change c.parsed + (0 + (n : Int)) = _
        rw [Int.zero_add]
  | closed n => exact absurd rfl (h n)
  | refused => exact ⟨_, if_pos rfl, rfl⟩

/-- How the switch, entered at `c`, is left behind a part of this extent with these properties. -/
def Cursor.leave (c : Cursor) (properties : List AMFAny) : Extent → Flow
  | .behind n => .next ⟨c.data.drop n, c.parsed + n, c.properties ++ properties⟩
  | e => .done ⟨e.ret c.parsed, c.properties ++ properties⟩

namespace Cursor

theorem leave_shift (c : Cursor) (ps qs : List AMFAny) (e : Extent) (k : Nat) :
    (⟨c.data.drop k, c.parsed + k, c.properties ++ ps⟩ : Cursor).leave qs e =
      c.leave (ps ++ qs) (e.shift k) := by
  unfold leave
  cases e with
  | behind n =>
      simp only [Extent.shift, List.drop_drop, List.append_assoc, Nat.cast_add, Int.add_assoc]
  | closed n =>
      simp only [Extent.shift, Extent.ret, List.append_assoc, Nat.cast_add, Int.add_assoc]
  | refused => simp only [Extent.shift, Extent.ret, List.append_assoc]

theorem leave_result (c : Cursor) (ps : List AMFAny) (e : Extent) :
    (c.leave ps e).result = ⟨e.ret c.parsed, c.properties ++ ps⟩ := by
  cases e with
  | behind n => rfl
  | closed n => rfl
  | refused => rfl

/-- The properties a value adds: its own, unless it is turned down. -/
def kept (p : AMFAny) : Extent → List AMFAny
  | .refused => []
  | _ => [p]

theorem take_leave (c : Cursor) (p : AMFAny) {e : Extent} (h : ∀ n, e ≠ .closed n) :
    c.take (e.ret 0, p) = c.leave (kept p e) e := by
  cases e with
  | behind n =>
      have hret : Extent.ret 0 (.behind n) = n := Int.zero_add _
      have hne : (n : Int) ≠ -1 := by omega
      rw [hret, take, if_neg hne]
      rfl
  | closed n => exact absurd rfl (h n)
  | refused =>
      change Flow.done ⟨-1, c.properties⟩ = .done ⟨-1, c.properties ++ []⟩
      rw [List.append_nil]

end Cursor

theorem leave_matches (c : Cursor) (ps : List AMFAny) (e : Extent) :
    (c.leave ps e).Matches c e := by
  cases e with
  | behind n => exact ⟨_, rfl, rfl, rfl⟩
  | closed n => exact ⟨_, rfl, rfl⟩
  | refused => exact ⟨_, rfl, rfl⟩

section Scalars
variable (name : List UInt8) {b : List UInt8}

theorem whole_ret {n : Nat} {e : Extent}
    (h : some (if n ≤ b.length then Extent.behind n else .refused) = some e) :
    e.ret 0 = if n ≤ b.length then (n : Int) else -1 := by
  obtain rfl := Option.some.inj h
  split
  · exact Int.zero_add _
  · rfl

theorem number_ret [Host] {e : Extent} (h : scalarExtent .number b = some e) :
    ∃ p, AMFNumber.decode name b b.length = .ok (e.ret 0, p) := by
  rw [whole_ret h]
  unfold AMFNumber.decode
  by_cases hle : 8 ≤ b.length
  · rw [if_pos (by omega), if_pos hle, readUint64T, readBytes_of_le (by omega)]
    exact ⟨_, rfl⟩
  · rw [if_neg (by omega), if_neg hle]
    exact ⟨_, rfl⟩

theorem boolean_ret {e : Extent} (h : scalarExtent .boolean b = some e) :
    ∃ p, AMFBoolean.decode name b b.length = .ok (e.ret 0, p) := by
  rw [whole_ret h]
  unfold AMFBoolean.decode
  by_cases hle : 1 ≤ b.length
  · rw [if_pos (by omega), if_pos hle, readUint8T, readBytes_of_le (by omega)]
    exact ⟨_, rfl⟩
  · rw [if_neg (by omega), if_neg hle]
    exact ⟨_, rfl⟩

theorem date_ret [Host] {e : Extent} (h : scalarExtent .date b = some e) :
    ∃ p, AMFDate.decode name b b.length = .ok (e.ret 0, p) := by
  rw [whole_ret h]
  unfold AMFDate.decode
  by_cases hle : 10 ≤ b.length
  · rw [if_neg (by omega), if_pos hle, readUint64T, readUint16T, readBytes_of_le (by omega),
      readBytes_of_le (by omega)]
    exact ⟨_, rfl⟩
  · rw [if_pos (by omega), if_neg hle]
    exact ⟨_, rfl⟩

theorem string_ret {e : Extent} (h : scalarExtent .string b = some e) :
    ∃ p, AMFString.decode name b b.length = .ok (e.ret 0, p) := by
  unfold scalarExtent at h
  dsimp only at h
  unfold AMFString.decode
  by_cases h2 : b.length < 2
  · rw [if_pos h2] at h
    obtain rfl := Option.some.inj h
    rw [if_pos (by omega)]
    exact ⟨_, rfl⟩
  · rw [if_neg h2] at h
    rw [whole_ret h, if_neg (by omega)]
    obtain ⟨len, hlen, hval⟩ := readUint16T_field (Nat.not_lt.mp h2)
    rw [hlen, ok_bind, hval]
    by_cases hle : 2 + field 2 b ≤ b.length
    · rw [if_neg (by omega), if_pos hle, decodeString_inside (Nat.not_lt.mp h2) hle, ok_bind,
        stringText_length hle]
      exact ⟨_, rfl⟩
    · rw [if_pos (by omega), if_neg hle]
      exact ⟨_, rfl⟩

/-- A long string: taken, turned down, or read behind the end because its length wraps around. -/
theorem longString_cases (hN : b.length < 2 ^ 31) :
    match scalarExtent .longString b with
    | some e => ∃ p, AMFLongString.decode name b b.length = .ok (e.ret 0, p)
    | none => AMFLongString.decode name b b.length = .error .outOfBounds := by
  unfold scalarExtent AMFLongString.decode
  dsimp only
  by_cases h4 : b.length < 4
  · rw [if_pos h4, if_pos (by omega)]
    exact ⟨_, rfl⟩
  · obtain ⟨len, hlen, hval⟩ := readUint32T_field (Nat.not_lt.mp h4)
    have hsize : uint32 b.length = b.length := by
      rw [uint32_of_lt (by omega) (by omega)]
      rfl
    have hsum : (len + 4).toNat = (field 4 b + 4) % 2 ^ 32 := by rw [UInt32.toNat_add, hval]; rfl
    have hsum' : (4 + len).toNat = (4 + field 4 b) % 2 ^ 32 := by rw [UInt32.toNat_add, hval]; rfl
    have hint : ¬ (b.length : Int) < 4 := by omega
    rw [if_neg h4, if_neg hint, hlen, ok_bind, hsize, hsum, hval]
    by_cases hwrap : 4 + field 4 b < 2 ^ 32
    · rw [if_pos hwrap, Nat.mod_eq_of_lt (by omega)]
      dsimp only
      by_cases hle : 4 + field 4 b ≤ b.length
      · rw [if_pos hle, if_neg (by omega), readBytes_of_le hle, hsum', Nat.mod_eq_of_lt hwrap,
          int32_of_lt (by omega) (by omega)]
        refine ⟨.longString name ((b.drop 4).take (field 4 b)), ?_⟩
        rw [Extent.ret, Int.zero_add]
        rfl
      · rw [if_neg hle, if_pos (by omega)]
        exact ⟨_, rfl⟩
    · have hlt := field_lt 4 (Nat.not_lt.mp h4)
      rw [if_neg hwrap]
      dsimp only
      rw [if_neg (by omega), readBytes_outside (by omega)]
      rfl

end Scalars

theorem start_size (b : List UInt8) :
    ({ data := b } : Cursor).parsed + ({ data := b } : Cursor).data.length = b.length := Int.zero_add _

theorem left_size (c : Cursor) : c.parsed + c.data.length - c.parsed = c.data.length :=
  add_sub_cancel_left _ _

/-- The simple cases of the switch. -/
theorem decodeValue_scalar [Host] (name : List UInt8) {type : AMFDataType} {b : List UInt8}
    {e : Extent} (hN : b.length < 2 ^ 31) (h : scalarExtent type b = some e) :
    ∃ ps, ∀ (decode once : List UInt8 → Int → Checked Decoded) (c : Cursor), c.data = b →
      c.decodeValue decode once name type (c.parsed + c.data.length) = .ok (c.leave ps e) := by
  have hopen := scalarExtent_not_closed h
  have hkept : ∀ {p : AMFAny} {x : Checked (Int × AMFAny)}, x = .ok (e.ret 0, p) →
      type ≠ .objectEnd →
      ∀ c : Cursor, x.map c.take = .ok (c.leave (Cursor.kept p e) e) := by
    rintro p x rfl htype c
    rw [map_ok, Cursor.take_leave c p (hopen htype)]
  have hnothing : ∀ c : Cursor, Flow.next c = c.leave [] (.behind 0) := by
    intro c
    rw [Cursor.leave, List.append_nil]
    exact congrArg (fun parsed => Flow.next ⟨c.data, parsed, c.properties⟩) (Int.add_zero _).symm
  cases type
  case number =>
    obtain ⟨p, hp⟩ := number_ret name h
    refine ⟨Cursor.kept p e, fun decode once c hc => ?_⟩
    rw [Cursor.decodeValue, left_size, hc, hkept hp nofun c]
  case boolean =>
    obtain ⟨p, hp⟩ := boolean_ret name h
    refine ⟨Cursor.kept p e, fun decode once c hc => ?_⟩
    rw [Cursor.decodeValue, left_size, hc, hkept hp nofun c]
  case string =>
    obtain ⟨p, hp⟩ := string_ret name h
    refine ⟨Cursor.kept p e, fun decode once c hc => ?_⟩
    rw [Cursor.decodeValue, left_size, hc, hkept hp nofun c]
  case date =>
    obtain ⟨p, hp⟩ := date_ret name h
    refine ⟨Cursor.kept p e, fun decode once c hc => ?_⟩
    rw [Cursor.decodeValue, left_size, hc, hkept hp nofun c]
  case longString =>
    have hcases := longString_cases name hN
    rw [h] at hcases
    obtain ⟨p, hp⟩ := hcases
    refine ⟨Cursor.kept p e, fun decode once c hc => ?_⟩
    rw [Cursor.decodeValue, left_size, hc, hkept hp nofun c]
  case objectEnd =>
    obtain rfl := Option.some.inj h
    refine ⟨[], fun decode once c _ => ?_⟩
    change Except.ok (Flow.done ⟨c.parsed, c.properties⟩) =
      .ok (.done ⟨c.parsed + (0 : Nat), c.properties ++ []⟩)
    rw [List.append_nil]
    exact congrArg (fun parsed => Except.ok (Flow.done ⟨parsed, c.properties⟩)) (Int.add_zero _).symm
  case object => exact absurd h nofun
  case ecmaArray => exact absurd h nofun
  case strictArray => exact absurd h nofun
  all_goals
    obtain rfl := Option.some.inj h
    exact ⟨[], fun decode once c _ => congrArg Except.ok (hnothing c)⟩

theorem advance_data (c : Cursor) (n : Nat) : (c.advance n).data = c.data.drop n := by
  change c.data.drop (n : Int).toNat = _
  rw [Int.toNat_natCast]

theorem advance_size {c : Cursor} {n : Nat} (h : n ≤ c.data.length) :
    (c.advance n).parsed + (c.advance n).data.length = c.parsed + c.data.length := by
  rw [advance_data, List.length_drop]
  change c.parsed + (n : Int) + _ = _
  omega

section Values
variable [Host] (decode once : List UInt8 → Int → Checked Decoded) (name : List UInt8) (c : Cursor)

theorem decodeValue_object : c.decodeValue decode once name .object (c.parsed + c.data.length) =
    (decode c.data c.data.length).map fun r => c.take (r.ret, .object name r.properties) := by
  unfold Cursor.decodeValue
  dsimp only
  rw [left_size]

theorem decodeValue_ecmaArray (hcount : 4 ≤ c.data.length) :
    c.decodeValue decode once name .ecmaArray (c.parsed + c.data.length) =
      (decode (c.advance 4).data (c.advance 4).data.length).map fun r =>
        (c.advance 4).take (r.ret, .object name r.properties) := by
  obtain ⟨v, hv, -⟩ := readUint32T_field hcount
  have hsize : c.parsed + c.data.length - (c.advance 4).parsed = (c.advance 4).data.length := by
    rw [← advance_size hcount]
    exact left_size _
  unfold Cursor.decodeValue
  dsimp only
  rw [hv, ok_bind, hsize]

theorem decodeValue_strictArray (hcount : 4 ≤ c.data.length) :
    c.decodeValue decode once name .strictArray (c.parsed + c.data.length) =
      Cursor.strictArray once name ((c.advance 4).parsed + (c.advance 4).data.length) (field 4 c.data)
        (c.advance 4) := by
  obtain ⟨v, hv, hval⟩ := readUint32T_field hcount
  have hsize := advance_size hcount
  unfold Cursor.decodeValue
  dsimp only
  rw [hv, ok_bind, hval]
  exact congrArg (fun size => Cursor.strictArray once name size _ _) hsize.symm

theorem decodeValue_noCount (hcount : c.data.length < 4) (size : Int) :
    c.decodeValue decode once name .ecmaArray size = .error .outOfBounds ∧
      c.decodeValue decode once name .strictArray size = .error .outOfBounds := by
  unfold Cursor.decodeValue
  dsimp only
  rw [readUint32T, readBytes_outside (by omega)]
  exact ⟨rfl, rfl⟩

end Values

section Elements
variable {once : List UInt8 → Int → Checked Decoded} {name : List UInt8} {c : Cursor} {r : Decoded}

theorem strictArray_next (count : Nat) (h : once c.data c.data.length = .ok r) {n : Nat}
    (hr : r.ret = n) (hle : n ≤ c.data.length) :
    Cursor.strictArray once name (c.parsed + c.data.length) (count + 1) c =
      Cursor.strictArray once name ((c.advance n).parsed + (c.advance n).data.length) count
        ((c.advance n).emplace (.object name r.properties)) := by
  rw [Cursor.strictArray, left_size, h, ok_bind, hr, if_neg (by omega), advance_size hle]

theorem strictArray_refused (count : Nat) (h : once c.data c.data.length = .ok r)
    (hr : r.ret = -1) :
    Cursor.strictArray once name (c.parsed + c.data.length) (count + 1) c = .ok (.done ⟨-1, c.properties⟩) := by
  rw [Cursor.strictArray, left_size, h, ok_bind, if_pos hr]
  rfl

end Elements

section Passes
variable [Host] {fuel : Nat} {has : Bool} {c : Cursor}

/-- The decoders a property is read with. -/
def objectDecoder (fuel : Nat) (data : List UInt8) (size : Int) : Checked Decoded :=
  AMFObject.decodeLoop fuel true size { data }

def onceDecoder (fuel : Nat) (data : List UInt8) (size : Int) : Checked Decoded :=
  (AMFObject.decodeProperty fuel true size { data }).map Flow.result

theorem decodeLoop_short (hlen : c.data.length < 3) :
    AMFObject.decodeLoop (fuel + 1) has (c.parsed + c.data.length) c = .ok ⟨c.parsed, c.properties⟩ := by
  rw [AMFObject.decodeLoop, if_neg (by omega)]
  rfl

theorem decodeLoop_marker (hlen : 3 ≤ c.data.length) (h9 : field 3 c.data = 9) :
    AMFObject.decodeLoop (fuel + 1) has (c.parsed + c.data.length) c = .ok ⟨c.parsed + 3, c.properties⟩ := by
  obtain ⟨mark, hmark, hval⟩ := readUint24T_field hlen
  have hnine : mark = 9 := UInt32.toNat_inj.mp (hval.trans h9)
  rw [AMFObject.decodeLoop, if_pos (by omega), hmark, ok_bind, if_pos hnine]
  rfl

theorem decodeLoop_pass (hlen : 3 ≤ c.data.length) (h9 : field 3 c.data ≠ 9) :
    AMFObject.decodeLoop (fuel + 1) has (c.parsed + c.data.length) c =
      AMFObject.decodeProperty fuel has (c.parsed + c.data.length) c >>= fun f => match f with
        | .next c' => AMFObject.decodeLoop fuel has (c.parsed + c.data.length) c'
        | .done r => .ok r := by
  obtain ⟨mark, hmark, hval⟩ := readUint24T_field hlen
  have hnine : mark ≠ 9 := by
    rintro rfl
    exact h9 hval.symm
  rw [AMFObject.decodeLoop, if_pos (by omega), hmark, ok_bind, if_neg hnine]
  rfl

/-- A property whose name and type lie inside is read by the switch. -/
theorem decodeProperty_value (fuel : Nat) {k : Nat} {t : UInt8} {v : List UInt8}
    (hname : nameSize has c.data = some k) (htype : c.data.drop k = t :: v) :
    ∃ c' : Cursor, c' = ⟨v, c.parsed + (k + 1 : Nat), c.properties⟩ ∧ v = c.data.drop (k + 1) ∧
      AMFObject.decodeProperty (fuel + 1) has (c.parsed + c.data.length) c =
        c'.decodeValue (objectDecoder fuel) (onceDecoder fuel) (nameText has c.data) (.ofCode t)
          (c'.parsed + c'.data.length) := by
  have hread := readName_cases c has
  rw [hname] at hread
  dsimp only at hread
  have hlen := congrArg List.length htype
  rw [List.length_drop, List.length_cons] at hlen
  have hone : Cursor.advance ⟨c.data.drop k, c.parsed + k, c.properties⟩ 1 =
      ⟨v, c.parsed + (k + 1 : Nat), c.properties⟩ := by
    rw [htype, Cursor.advance, Nat.cast_add, ← Int.add_assoc]
    rfl
  have hv : v = c.data.drop (k + 1) := by
    rw [← List.drop_drop, htype]
    rfl
  refine ⟨_, rfl, hv, ?_⟩
  have hsum : c.parsed + (k + 1 : Nat) + v.length = c.parsed + c.data.length := by omega
  rw [AMFObject.decodeProperty, hread, ok_bind]
  dsimp only
  rw [hone, htype, readUint8T_cons, ok_bind, hsum]
  rfl

theorem decodeProperty_outside (h : ∀ k, nameSize has c.data = some k → c.data.drop k = [])
    (size : Int) : AMFObject.decodeProperty (fuel + 1) has size c = .error .outOfBounds := by
  have hcases := readName_cases c has
  rw [AMFObject.decodeProperty]
  cases hname : nameSize has c.data with
  | none =>
      rw [hname] at hcases
      rw [hcases]
      rfl
  | some k =>
      rw [hname] at hcases
      rw [hcases, ok_bind, h k hname, readUint8T, readBytes_outside Nat.zero_lt_one]
      rfl

end Passes

end TmmsServer
