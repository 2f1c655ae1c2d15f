import TmmsServer.Lib.Words

/-!
# Text messages

`TextContext::ParseMessage`, which cuts a byte stream into messages: four bytes of
length, then the body. The loop of a call may go on for ever; a call returns when
some number of turns ends it.
-/
namespace TmmsServer
open Lib.Words

inductive TextState where
  | header
  | body
  deriving DecidableEq, Repr

structure TextContext where
  state : TextState := .header
  messageLength : Int := 0
  messageBody : List UInt8 := []
  hasCallback : Bool := true
  deriving DecidableEq

/-- What a call came to: the unread bytes, the bodies passed to the callback, the return value. -/
structure TextParsed where
  ctx : TextContext
  buf : List UInt8
  out : List (List UInt8) := []
  ret : Int
  deriving DecidableEq

/-- `ReadInt32`, kept in an `int32_t`. -/
def lengthWord (buf : List UInt8) : Int :=
  if beValue (buf.take 4) < 2 ^ 31 then beValue (buf.take 4) else beValue (buf.take 4) - 2 ^ 32

/-- `ReadableBytes() >= message_length_` compares as `size_t`: a negative length is more than any
buffer holds. -/
def HasBody (readable : Nat) (len : Int) : Prop := 0 ≤ len ∧ len.toNat ≤ readable

instance (readable : Nat) (len : Int) : Decidable (HasBody readable len) :=
  inferInstanceAs (Decidable (_ ∧ _))

namespace TextContext

def readHeader (c : TextContext) (buf : List UInt8) : TextContext :=
  { c with messageLength := lengthWord buf, state := .body }

def appendBody (c : TextContext) (buf : List UInt8) : List UInt8 :=
  c.messageBody ++ buf.take c.messageLength.toNat

/-- The body is there; the callback takes it, if there is one. -/
def finish (c : TextContext) (buf : List UInt8) : TextContext :=
  { c with
    messageLength := 0
    messageBody := if c.hasCallback then [] else c.appendBody buf
    state := .header }

def passed (c : TextContext) (buf : List UInt8) : List (List UInt8) :=
  if c.hasCallback then [c.appendBody buf] else []

/-- The loop of `ParseMessage`, as far as `fuel` turns go. -/
def loop : Nat → TextContext → List UInt8 → Option TextParsed
  | 0, _, _ => none
  | fuel + 1, c, buf =>
      if buf = [] then some { ctx := c, buf, ret := 0 }
      else
        match c.state with
        | .header =>
            if 4 ≤ buf.length then loop fuel (c.readHeader buf) (buf.drop 4)
            else some { ctx := c, buf, ret := 1 }
        | .body =>
            if HasBody buf.length c.messageLength then
              (loop fuel (c.finish buf) (buf.drop c.messageLength.toNat)).map fun p =>
                { p with out := c.passed buf ++ p.out }
            else loop fuel c buf

/-- `ParseMessage` returns. -/
def Returns (c : TextContext) (buf : List UInt8) (p : TextParsed) : Prop :=
  ∃ fuel, loop fuel c buf = some p

/-- The calls after each delivery return, one after the other. -/
inductive Calls : TextContext → List UInt8 → List (List UInt8) → List TextParsed → Prop
  | nil (c : TextContext) (buf : List UInt8) : Calls c buf [] []
  | cons {c : TextContext} {buf piece : List UInt8} {pieces : List (List UInt8)} {p : TextParsed}
      {ps : List TextParsed} : c.Returns (buf ++ piece) p → Calls p.ctx p.buf pieces ps →
      Calls c buf (piece :: pieces) (p :: ps)

section Turns
variable {c : TextContext} {buf : List UInt8} {p : TextParsed}

theorem returns_nil : c.Returns [] p ↔ p = { ctx := c, buf := [], ret := 0 } := by
  constructor
  · rintro ⟨fuel, h⟩
    cases fuel with
    | zero => exact absurd h nofun
    | succ fuel => exact (Option.some.inj h).symm
  · rintro rfl
    exact ⟨1, rfl⟩

theorem returns_turn {c' : TextContext} {buf' : List UInt8} {f : TextParsed → TextParsed}
    (h : ∀ fuel, loop (fuel + 1) c buf = (loop fuel c' buf').map f) :
    c.Returns buf p ↔ ∃ p', c'.Returns buf' p' ∧ f p' = p := by
  constructor
  · rintro ⟨fuel, hloop⟩
    cases fuel with
    | zero => exact absurd hloop nofun
    | succ fuel =>
        rw [h] at hloop
        obtain ⟨p', hp', hf⟩ := Option.map_eq_some_iff.mp hloop
        exact ⟨p', ⟨fuel, hp'⟩, hf⟩
  · rintro ⟨p', ⟨fuel, hp'⟩, hf⟩
    refine ⟨fuel + 1, ?_⟩
    rw [h, hp', Option.map_some, hf]

theorem returns_short (hstate : c.state = .header) (hne : buf ≠ []) (hlen : buf.length < 4) :
    c.Returns buf p ↔ p = { ctx := c, buf, ret := 1 } := by
  have hturn : ∀ fuel, loop (fuel + 1) c buf = some { ctx := c, buf, ret := 1 } := by
    intro fuel
    rw [loop, if_neg hne, hstate]
    dsimp only
    rw [if_neg (Nat.not_le.mpr hlen)]
  constructor
  · rintro ⟨fuel, h⟩
    cases fuel with
    | zero => exact absurd h nofun
    | succ fuel => exact Option.some.inj (h.symm.trans (hturn fuel))
  · rintro rfl
    exact ⟨1, hturn 0⟩

theorem returns_header (hstate : c.state = .header) (hlen : 4 ≤ buf.length) :
    c.Returns buf p ↔ (c.readHeader buf).Returns (buf.drop 4) p := by
  have hne : buf ≠ [] := List.ne_nil_of_length_pos (Nat.lt_of_lt_of_le (by decide) hlen)
  have hturn : ∀ fuel, loop (fuel + 1) c buf =
      (loop fuel (c.readHeader buf) (buf.drop 4)).map id := by
    intro fuel
    rw [loop, if_neg hne, hstate, Option.map_id]
    dsimp only
    rw [if_pos hlen]
    rfl
  rw [returns_turn hturn]
  simp only [id, exists_eq_right]

theorem returns_body (hstate : c.state = .body) (hne : buf ≠ [])
    (henough : HasBody buf.length c.messageLength) :
    c.Returns buf p ↔ ∃ p', (c.finish buf).Returns (buf.drop c.messageLength.toNat) p' ∧
      { p' with out := c.passed buf ++ p'.out } = p := by
  refine returns_turn fun fuel => ?_
  rw [loop, if_neg hne, hstate]
  dsimp only
  rw [if_pos henough]

theorem not_returns_body (hstate : c.state = .body) (hne : buf ≠ [])
    (henough : ¬ HasBody buf.length c.messageLength) : ¬ c.Returns buf p := by
  rintro ⟨fuel, h⟩
  induction fuel with
  | zero => exact absurd h nofun
  | succ fuel ih =>
      rw [loop, if_neg hne, hstate] at h
      dsimp only at h
      rw [if_neg henough] at h
      exact ih h

end Turns
end TextContext
end TmmsServer
