import TmmsServer.Rtmp.Amf

/-!
# Messages without overruns

The grammar of the AMF messages whose names, array counts, array elements and
long strings all lie inside.
-/
namespace TmmsServer
open Lib.Words

/-- How far a part of a message reaches: over `n` bytes, over `n` bytes up to an end of object, or
to a value that is turned down. -/
inductive Extent where
  | behind (n : Nat)
  | closed (n : Nat)
  | refused
  deriving DecidableEq, Repr

namespace Extent

def shift (k : Nat) : Extent → Extent
  | behind n => behind (k + n)
  | closed n => closed (k + n)
  | refused => refused

def bytes : Extent → Option Nat
  | behind n => some n
  | closed n => some n
  | refused => none

/-- The value returned for it, with `parsed` bytes before. -/
def ret (parsed : Int) : Extent → Int
  | behind n => parsed + n
  | closed n => parsed + n
  | refused => -1

theorem ret_shift (e : Extent) (k : Nat) (parsed : Int) :
    (e.shift k).ret parsed = e.ret (parsed + k) := by
  cases e with
  | behind n => exact (Int.add_assoc parsed k n).symm
  | closed n => exact (Int.add_assoc parsed k n).symm
  | refused => rfl

theorem behind_ne_closed (m n : Nat) : behind m ≠ closed n := nofun

end Extent

/-- The value of the `n` bytes in front. -/
def field (n : Nat) (b : List UInt8) : Nat := beValue (b.take n)

/-- The bytes passed over for a name, if its length and its text lie inside. -/
def nameSize (has : Bool) (b : List UInt8) : Option Nat :=
  if has = false then some 0
  else if 2 ≤ b.length ∧ 2 + field 2 b ≤ b.length then some (if field 2 b = 0 then 0 else 2 + field 2 b)
  else none

/-- A value without parts: the bytes it takes, or `refused` where they are not all there. No extent for a
long string whose length wraps around when its own four bytes are added, nor for the types with parts. -/
def scalarExtent (type : AMFDataType) (b : List UInt8) : Option Extent :=
  let whole n := some (if n ≤ b.length then Extent.behind n else .refused)
  match type with
  | .number => whole 8
  | .boolean => whole 1
  | .string => if b.length < 2 then some .refused else whole (2 + field 2 b)
  | .date => whole 10
  | .longString =>
      if b.length < 4 then some .refused
      else if 4 + field 4 b < 2 ^ 32 then whole (4 + field 4 b)
      else none
  | .objectEnd => some (.closed 0)
  | .object | .ecmaArray | .strictArray => none
  | _ => some (.behind 0)

/-- The parts of a message. -/
inductive Part where
  | object (has : Bool)
  | property (has : Bool)
  | value (type : AMFDataType)
  | elements (count : Nat)

/-- The bytes begin with a part that reaches that far, and nothing in it reaches behind the last
byte: no name, no type, no count, no element of an array and no long string. -/
inductive Scan : Part → List UInt8 → Extent → Prop where
  | short {has : Bool} {b : List UInt8} (hlen : b.length < 3) : Scan (.object has) b (.behind 0)
  | marker {has : Bool} {b : List UInt8} (hlen : 3 ≤ b.length) (hmark : field 3 b = 9) :
      Scan (.object has) b (.behind 3)
  | pass {has : Bool} {b : List UInt8} {n : Nat} {e : Extent} (hlen : 3 ≤ b.length) (hmark : field 3 b ≠ 9)
      (hfirst : Scan (.property has) b (.behind n)) (hrest : Scan (.object has) (b.drop n) e) :
      Scan (.object has) b (e.shift n)
  | leave {has : Bool} {b : List UInt8} {n : Nat} (hlen : 3 ≤ b.length) (hmark : field 3 b ≠ 9)
      (hfirst : Scan (.property has) b (.closed n)) : Scan (.object has) b (.behind n)
  | objectRefused {has : Bool} {b : List UInt8} (hlen : 3 ≤ b.length) (hmark : field 3 b ≠ 9)
      (hfirst : Scan (.property has) b .refused) : Scan (.object has) b .refused
  | property {has : Bool} {b v : List UInt8} {k : Nat} {t : UInt8} {e : Extent} (hname : nameSize has b = some k)
      (htype : b.drop k = t :: v) (hvalue : Scan (.value (.ofCode t)) v e) :
      Scan (.property has) b (e.shift (k + 1))
  | scalar {type : AMFDataType} {b : List UInt8} {e : Extent} (he : scalarExtent type b = some e) :
      Scan (.value type) b e
  | object {b : List UInt8} {e : Extent} (hobj : Scan (.object true) b e) : Scan (.value .object) b e
  | ecmaArray {b : List UInt8} {e : Extent} (hcount : 4 ≤ b.length) (hobj : Scan (.object true) (b.drop 4) e) :
      Scan (.value .ecmaArray) b (e.shift 4)
  | strictArray {b : List UInt8} {e : Extent} (hcount : 4 ≤ b.length)
      (hitems : Scan (.elements (field 4 b)) (b.drop 4) e) : Scan (.value .strictArray) b (e.shift 4)
  | noElements {b : List UInt8} : Scan (.elements 0) b (.behind 0)
  | element {b : List UInt8} {count n : Nat} {e e' : Extent} (hfirst : Scan (.property true) b e)
      (hn : e.bytes = some n) (hrest : Scan (.elements count) (b.drop n) e') :
      Scan (.elements (count + 1)) b (e'.shift n)
  | elementRefused {b : List UInt8} {count : Nat} (hfirst : Scan (.property true) b .refused) :
      Scan (.elements (count + 1)) b .refused

theorem Extent.ret_of_bytes {e : Extent} {n : Nat} (h : e.bytes = some n) : e.ret 0 = n := by
  cases e with
  | behind m =>
      obtain rfl := Option.some.inj h
      exact Int.zero_add _
  | closed m =>
      obtain rfl := Option.some.inj h
      exact Int.zero_add _
  | refused => exact absurd h nofun

theorem Extent.refused_of_bytes {e : Extent} (h : e.bytes = none) : e = .refused := by
  cases e with
  | behind n => exact absurd h nofun
  | closed n => exact absurd h nofun
  | refused => rfl

theorem Extent.bytes_shift {e : Extent} {k n : Nat} (h : (e.shift k).bytes = some n) :
    ∃ m, e.bytes = some m ∧ n = k + m := by
  cases e with
  | behind m => exact ⟨m, rfl, (Option.some.inj h).symm⟩
  | closed m => exact ⟨m, rfl, (Option.some.inj h).symm⟩
  | refused => exact absurd h nofun

theorem scalarExtent_le {type : AMFDataType} {b : List UInt8} {e : Extent} {n : Nat}
    (h : scalarExtent type b = some e) (hn : e.bytes = some n) : n ≤ b.length := by
  have hwhole : ∀ m, some (if m ≤ b.length then Extent.behind m else .refused) = some e →
      n ≤ b.length := by
    intro m hm
    obtain rfl := Option.some.inj hm
    split at hn
    next hle =>
      obtain rfl := Option.some.inj hn
      exact hle
    next => exact absurd hn nofun
  have hrefused : some Extent.refused = some e → n ≤ b.length := by
    rintro ⟨rfl⟩
    exact absurd hn nofun
  cases type
  case number => exact hwhole 8 h
  case boolean => exact hwhole 1 h
  case date => exact hwhole 10 h
  case string =>
    unfold scalarExtent at h
    dsimp only at h
    split at h
    · exact hrefused h
    · exact hwhole _ h
  case longString =>
    unfold scalarExtent at h
    dsimp only at h
    split at h
    · exact hrefused h
    · split at h
      · exact hwhole _ h
      · exact absurd h nofun
  case object => exact absurd h nofun
  case ecmaArray => exact absurd h nofun
  case strictArray => exact absurd h nofun
  all_goals
    obtain rfl := Option.some.inj h
    obtain rfl := Option.some.inj hn
    exact Nat.zero_le _

/-- A part lies inside the bytes it begins. -/
theorem Scan.bytes_le {p : Part} {b : List UInt8} {e : Extent} (h : Scan p b e) {n : Nat}
    (hn : e.bytes = some n) : n ≤ b.length := by
  induction h generalizing n with
  | short _ =>
      obtain rfl := Option.some.inj hn
      exact Nat.zero_le _
  | marker hlen _ =>
      obtain rfl := Option.some.inj hn
      exact hlen
  | pass _ _ _ _ ihfirst ihrest =>
      obtain ⟨m, hm, rfl⟩ := Extent.bytes_shift hn
      have hfirst := ihfirst rfl
      have hrest := ihrest hm
      rw [List.length_drop] at hrest
      omega
  | leave _ _ _ ih => exact ih hn
  | objectRefused _ _ _ _ => exact absurd hn nofun
  | property hname htype _ ih =>
      obtain ⟨m, hm, rfl⟩ := Extent.bytes_shift hn
      have hvalue := ih hm
      have hdrop := congrArg List.length htype
      rw [List.length_drop, List.length_cons] at hdrop
      omega
  | scalar he => exact scalarExtent_le he hn
  | object _ ih => exact ih hn
  | ecmaArray hcount _ ih =>
      obtain ⟨m, hm, rfl⟩ := Extent.bytes_shift hn
      have hobj := ih hm
      rw [List.length_drop] at hobj
      omega
  | strictArray hcount _ ih =>
      obtain ⟨m, hm, rfl⟩ := Extent.bytes_shift hn
      have hitems := ih hm
      rw [List.length_drop] at hitems
      omega
  | noElements =>
      obtain rfl := Option.some.inj hn
      exact Nat.zero_le _
  | element _ he _ ihfirst ihrest =>
      obtain ⟨m, hm, rfl⟩ := Extent.bytes_shift hn
      have hfirst := ihfirst he
      have hrest := ihrest hm
      rw [List.length_drop] at hrest
      omega
  | elementRefused _ => exact absurd hn nofun

/-- An end of object closes the object it stands in, and no other. -/
theorem Scan.not_closed {p : Part} {b : List UInt8} {e : Extent} (h : Scan p b e) (n : Nat) :
    match p with
    | .object _ | .elements _ => e ≠ .closed n
    | _ => True := by
  have hshift : ∀ {e : Extent} (k : Nat), (∀ m, e ≠ .closed m) → ∀ m, e.shift k ≠ .closed m := by
    intro e k he m
    cases e with
    | behind _ => exact nofun
    | closed i => exact absurd rfl (he i)
    | refused => exact nofun
  induction h generalizing n with
  | short _ => exact nofun
  | marker _ _ => exact nofun
  | pass _ _ _ _ _ ih => exact hshift _ ih n
  | leave _ _ _ _ => exact nofun
  | objectRefused _ _ _ _ => exact nofun
  | noElements => exact nofun
  | element _ _ _ _ ih => exact hshift _ ih n
  | elementRefused _ _ => exact nofun
  | property _ _ _ _ => trivial
  | scalar _ => trivial
  | object _ _ => trivial
  | ecmaArray _ _ _ => trivial
  | strictArray _ _ _ => trivial

theorem Scan.property_pos {has : Bool} {b : List UInt8} {e : Extent} (h : Scan (.property has) b e)
    {n : Nat} (hn : e.bytes = some n) : 1 ≤ n := by
  cases h with
  | property _ _ _ =>
      obtain ⟨m, -, rfl⟩ := Extent.bytes_shift hn
      omega

theorem scalarExtent_not_closed {type : AMFDataType} {b : List UInt8} {e : Extent}
    (h : scalarExtent type b = some e) (htype : type ≠ .objectEnd) (n : Nat) : e ≠ .closed n := by
  rintro rfl
  have hwhole : ∀ m, some (if m ≤ b.length then Extent.behind m else .refused) ≠
      some (.closed n) := by
    intro m
    split <;> exact nofun
  cases type
  case objectEnd => exact htype rfl
  case number => exact hwhole 8 h
  case boolean => exact hwhole 1 h
  case date => exact hwhole 10 h
  case string =>
    unfold scalarExtent at h
    dsimp only at h
    split at h
    · exact absurd h nofun
    · exact hwhole _ h
  case longString =>
    unfold scalarExtent at h
    dsimp only at h
    split at h
    · exact absurd h nofun
    · split at h
      · exact hwhole _ h
      · exact absurd h nofun
  all_goals exact absurd h nofun

end TmmsServer
