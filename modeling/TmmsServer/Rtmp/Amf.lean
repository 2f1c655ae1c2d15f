import TmmsServer.Mmedia.Bytes

/-!
# AMF values

`AMFAny` and its classes, `AMFObject::Decode` and `DecodeOnce`. The bytes behind
a data pointer are those up to the end of the message.
-/
namespace TmmsServer
open Lib.Words BytesReader

inductive AMFDataType where
  | number
  | boolean
  | string
  | object
  | movieClip
  | null
  | undefined
  | reference
  | ecmaArray
  | objectEnd
  | strictArray
  | date
  | longString
  | unsupported
  | recordset
  | xmlDoc
  | typedObject
  | avmplus
  | invalid
  deriving DecidableEq, Repr

namespace AMFDataType

def code : AMFDataType → UInt8
  | number => 0
  | boolean => 1
  | string => 2
  | object => 3
  | movieClip => 4
  | null => 5
  | undefined => 6
  | reference => 7
  | ecmaArray => 8
  | objectEnd => 9
  | strictArray => 10
  | date => 11
  | longString => 12
  | unsupported => 13
  | recordset => 14
  | xmlDoc => 15
  | typedObject => 16
  | avmplus => 17
  | invalid => 0xff

/-- The case of the switch over the type byte; what has none goes to `default`, as `invalid` does. -/
def ofCode (c : UInt8) : AMFDataType :=
  ([number, boolean, string, object, movieClip, null, undefined, reference, ecmaArray, objectEnd, strictArray, date,
    longString, unsupported, recordset, xmlDoc, typedObject, avmplus].find? (·.code = c)).getD invalid

end AMFDataType

/-- A value with its `name_`. Strings are their bytes, doubles their bits. -/
inductive AMFAny where
  | number (name : List UInt8) (number : UInt64)
  | boolean (name : List UInt8) (b : Bool)
  | string (name : List UInt8) (string : List UInt8)
  | object (name : List UInt8) (properties : List AMFAny)
  | date (name : List UInt8) (utc : UInt64) (utcOffset : Int16)
  | longString (name : List UInt8) (longString : List UInt8)

namespace AMFAny

def name : AMFAny → List UInt8
  | number name _ | boolean name _ | string name _ | object name _ | date name _ _ | longString name _ => name

/-- `String()`: empty for what is no string. -/
def str : AMFAny → List UInt8
  | string _ s => s
  | longString _ s => s
  | _ => []

/-- `Number()`: 0.0 for what is no number. -/
def num : AMFAny → UInt64
  | number _ n => n
  | _ => 0

/-- `Object()`: a null pointer for what is no object. -/
def obj : AMFAny → Option (List AMFAny)
  | object _ properties => some properties
  | _ => none

def decodeString (data : List UInt8) : Checked (List UInt8) := do
  let len ← readUint16T data 0
  if 0 < len then readBytes data 2 len.toNat else return []

end AMFAny

section Scalars
variable (name data : List UInt8) (size : Int)

/-- The `Decode` of each class, on a fresh value: the bytes parsed or -1, and the value. -/
def AMFNumber.decode [Host] : Checked (Int × AMFAny) :=
  if 8 ≤ size then do
    let n ← readUint64T data 0
    return (8, .number name (Lib.Double.ofUint64 n))
  else return (-1, .number name 0)

def AMFBoolean.decode : Checked (Int × AMFAny) :=
  if 1 ≤ size then do
    let b ← readUint8T data 0
    return (1, .boolean name (b ≠ 0))
  else return (-1, .boolean name false)

def AMFString.decode : Checked (Int × AMFAny) :=
  if size < 2 then return (-1, .string name [])
  else do
    let len ← readUint16T data 0
    if size < len.toNat + 2 then return (-1, .string name [])
    else do
      let s ← AMFAny.decodeString data
      return (2 + s.length, .string name s)

def AMFDate.decode [Host] : Checked (Int × AMFAny) :=
  if size < 10 then return (-1, .date name 0 0)
  else do
    let utc ← readUint64T data 0
    let offset ← readUint16T data 8
    return (10, .date name (Lib.Double.ofUint64 utc) offset.toInt16)

def AMFLongString.decode : Checked (Int × AMFAny) :=
  if size < 4 then return (-1, .longString name [])
  else do
    let len ← readUint32T data 0
    -- both sides are unsigned, and the sum wraps around
    if uint32 size < (len + 4).toNat then return (-1, .longString name [])
    else do
      let s ← readBytes data 4 len.toNat
      return (int32 (4 + len).toNat, .longString name s)

end Scalars

/-- `data`, `parsed` and `properties_` in the course of a call. -/
structure Cursor where
  data : List UInt8
  parsed : Int := 0
  properties : List AMFAny := []

/-- The value returned and `properties_`. -/
structure Decoded where
  ret : Int
  properties : List AMFAny

/-- How the switch is left: by `break`, or with the function. -/
inductive Flow where
  | next (c : Cursor)
  | done (r : Decoded)

def Flow.result : Flow → Decoded
  | next c => ⟨c.parsed, c.properties⟩
  | done r => r

namespace Cursor

def advance (c : Cursor) (n : Int) : Cursor :=
  { c with data := c.data.drop n.toNat, parsed := c.parsed + n }

def emplace (c : Cursor) (p : AMFAny) : Cursor := { c with properties := c.properties ++ [p] }

/-- Take over what `Decode` of a value gave. -/
def take (c : Cursor) (r : Int × AMFAny) : Flow :=
  if r.1 = -1 then .done ⟨-1, c.properties⟩ else .next ((c.advance r.1).emplace r.2)

/-- The name of a property; an empty one is left where it is. -/
def readName (c : Cursor) (has : Bool) : Checked (List UInt8 × Cursor) :=
  if has then do
    let name ← AMFAny.decodeString c.data
    return (name, if name = [] then c else c.advance (name.length + 2))
  else return ([], c)

/-- The elements of a strict array; each goes into an object of its own. -/
def strictArray (once : List UInt8 → Int → Checked Decoded) (name : List UInt8) (size : Int) :
    Nat → Cursor → Checked Flow
  | 0, c => return .next c
  | count + 1, c => do
      let r ← once c.data (size - c.parsed)
      if r.ret = -1 then return .done ⟨-1, c.properties⟩
      else strictArray once name size count ((c.advance r.ret).emplace (.object name r.properties))

/-- The switch over the type, the same in `Decode` and in `DecodeOnce`. -/
def decodeValue [Host] (c : Cursor) (decode once : List UInt8 → Int → Checked Decoded)
    (name : List UInt8) (type : AMFDataType) (size : Int) : Checked Flow :=
  match type with
  | .number => (AMFNumber.decode name c.data (size - c.parsed)).map c.take
  | .boolean => (AMFBoolean.decode name c.data (size - c.parsed)).map c.take
  | .string => (AMFString.decode name c.data (size - c.parsed)).map c.take
  | .object => (decode c.data (size - c.parsed)).map fun r => c.take (r.ret, .object name r.properties)
  | .ecmaArray => do
      -- the count is read and not used
      let _ ← readUint32T c.data 0
      let c := c.advance 4
      (decode c.data (size - c.parsed)).map fun r => c.take (r.ret, .object name r.properties)
  | .objectEnd => return .done ⟨c.parsed, c.properties⟩
  | .strictArray => do
      let count ← readUint32T c.data 0
      strictArray once name size count.toNat (c.advance 4)
  | .date => (AMFDate.decode name c.data (size - c.parsed)).map c.take
  | .longString => (AMFLongString.decode name c.data (size - c.parsed)).map c.take
  | _ => return .next c

end Cursor

namespace AMFObject
variable [Host]

mutual

/-- The loop of `Decode`. -/
def decodeLoop : Nat → Bool → Int → Cursor → Checked Decoded
  | 0, _, _, _ => throw .outOfFuel
  | fuel + 1, has, size, c =>
      if c.parsed + 3 ≤ size then do
        let mark ← readUint24T c.data 0
        if mark = 9 then return ⟨c.parsed + 3, c.properties⟩
        else do
          let flow ← decodeProperty fuel has size c
          match flow with
          | .next c => decodeLoop fuel has size c
          | .done r => return r
      else return ⟨c.parsed, c.properties⟩

/-- Name, type and value of one property: the body of the loop, and of `DecodeOnce`. -/
def decodeProperty : Nat → Bool → Int → Cursor → Checked Flow
  | 0, _, _, _ => throw .outOfFuel
  | fuel + 1, has, size, c => do
      let named ← c.readName has
      let type ← readUint8T named.2.data 0
      (named.2.advance 1).decodeValue (fun data size => decodeLoop fuel true size { data })
        (fun data size => (decodeProperty fuel true size { data }).map Flow.result) named.1 (.ofCode type) size

end

/-- Each pass and each level of nesting takes a byte at least. That the levels fit the call stack is not checked. -/
def decode (data : List UInt8) (size : Int) (has : Bool) : Checked Decoded :=
  decodeLoop (2 * data.length + 2) has size { data }

/-- `Property(int)`: a null pointer outside. -/
def property (properties : List AMFAny) (index : Int) : Option AMFAny :=
  if index < 0 then none else properties[index.toNat]?

mutual

/-- `Property(name)`: the first with the name, inside the objects as well. -/
def propertyNamed (name : List UInt8) : List AMFAny → Option AMFAny
  | [] => none
  | p :: ps =>
      match search name p with
      | some q => some q
      | none => propertyNamed name ps

/-- The pass of the loop on one property. -/
def search (name : List UInt8) : AMFAny → Option AMFAny
  | .object n properties => if n = name then some (.object n properties) else propertyNamed name properties
  | p => if p.name = name then some p else none

end

end AMFObject
end TmmsServer
