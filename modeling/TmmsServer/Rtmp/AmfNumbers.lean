import TmmsServer.Rtmp.AmfArguments

/-!
# Numbers through their integers

`WriteNumber` stores the bits of a double, and `AMFNumber::Decode` takes them
through a `uint64_t`. What lies behind the point or below zero does not survive.
-/
namespace TmmsServer
open Lib.Double (FiniteDouble value)

/-- `WriteNumber`: the bits in network order. -/
def AMFAny.writeNumber (bits : UInt64) : List UInt8 := Lib.Words.beBytes 8 bits.toNat

theorem AMFNumber.decode_writeNumber [Host] (name : List UInt8) (bits : UInt64) :
    AMFNumber.decode name (AMFAny.writeNumber bits) 8 =
      .ok (8, .number name (Lib.Double.ofUint64 (Double.toUint64 bits))) := by
  have h := @AMFNumber.decode_encode name [] 8 _ bits (Int.le_refl 8)
  rwa [List.append_nil] at h

/-- The cast there and back keeps the whole numbers from 0 up to `2^64`. -/
theorem ofUint64_toUint64_iff {bits : UInt64} :
    (∀ _ : Host, Lib.Double.ofUint64 (Double.toUint64 bits) = bits) ↔
      bits.toNat < 2 ^ 63 ∧ ∃ n : Nat, n < 2 ^ 64 ∧ value bits = n := by
  constructor
  · intro h
    have hzero := @h ⟨fun _ => 0⟩
    unfold Double.toUint64 at hzero
    cases htruncate : Lib.Double.truncate bits with
    | none =>
        rw [htruncate] at hzero
        change Lib.Double.ofUint64 0 = bits at hzero
        rw [← hzero] at htruncate
        exact absurd htruncate (by decide)
    | some n =>
        rw [htruncate] at hzero
        obtain ⟨hsign, m, hscaled⟩ := Lib.Double.ofUint64_scaled n
        have hback : Lib.Double.ofUint64 n = bits := hzero
        rw [hback] at hsign hscaled
        refine ⟨hsign, m, ?_, Lib.Double.value_eq_natCast.mpr hscaled⟩
        by_contra hlarge
        have hnone := Lib.Double.truncate_large (Nat.not_lt.mp hlarge) hscaled
        rw [htruncate] at hnone
        exact absurd hnone nofun
  · rintro ⟨hsign, n, hlt, hvalue⟩ host
    have hscaled := Lib.Double.value_eq_natCast.mp hvalue
    unfold Double.toUint64
    rw [Lib.Double.truncate_whole hlt hscaled]
    exact Lib.Double.ofUint64_whole hsign hlt hscaled

/-- A double comes back, whatever the host makes of an undefined cast, if it is such a number. -/
theorem AMFNumber.decode_writeNumber_iff (name : List UInt8) (v : FiniteDouble) :
    (∀ _ : Host, AMFNumber.decode name (AMFAny.writeNumber v.1) 8 = .ok (8, .number name v.1)) ↔
      v.1.toNat < 2 ^ 63 ∧ ∃ n : Nat, n < 2 ^ 64 ∧ value v.1 = n := by
  rw [← ofUint64_toUint64_iff]
  refine forall_congr' fun host => ?_
  rw [AMFNumber.decode_writeNumber]
  constructor
  · intro h
    exact (AMFAny.number.inj (Prod.mk.inj (Except.ok.inj h)).2).2
  · intro h
    rw [h]

/-- On no host does 0.5 come back. -/
theorem AMFNumber.half_lost :
    ¬ ∃ _ : Host, ∀ v : FiniteDouble,
      AMFNumber.decode [] (AMFAny.writeNumber v.1) 8 = .ok (8, .number [] v.1) := by
  rintro ⟨host, h⟩
  have hhalf := h ⟨0x3FE0000000000000, by decide⟩
  have hzero : Double.toUint64 0x3FE0000000000000 = 0 := by
    unfold Double.toUint64
    rw [(by decide : Lib.Double.truncate 0x3FE0000000000000 = some 0)]
  rw [AMFNumber.decode_writeNumber, hzero] at hhalf
  have hbits := (AMFAny.number.inj (Prod.mk.inj (Except.ok.inj hhalf)).2).2
  exact absurd hbits (by decide)

end TmmsServer
