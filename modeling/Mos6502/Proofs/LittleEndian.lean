import Mathlib.Data.Nat.Digits.Defs
import Mos6502.Proofs.Addition

/-!
Numbers of many bytes, the low byte first: as numbers from zero (`littleEndian`) and in two's
complement (`twosComplement`). The statements about a first byte and the rest let a sum be carried
from byte to byte; those about complements turn a difference into a sum.
-/

set_option autoImplicit false
set_option relaxedAutoImplicit false

namespace Mos6502

/-- The number that bytes stand for, the low byte first. -/
def littleEndian (bytes : List UInt8) : Nat := Nat.ofDigits 256 (bytes.map UInt8.toNat)

/-- The number that bytes stand for in two's complement, the low byte first. -/
def twosComplement (bytes : List UInt8) : Int :=
  if 2 * littleEndian bytes < 256 ^ bytes.length then littleEndian bytes
  else littleEndian bytes - (256 ^ bytes.length : Nat)

/-- Whether a number can be written in two's complement with a number of bytes. -/
def FitsSigned (count : Nat) (value : Int) : Prop :=
  -(256 ^ count : Nat) ≤ 2 * value ∧ 2 * value < (256 ^ count : Nat)

instance (count : Nat) (value : Int) : Decidable (FitsSigned count value) :=
  inferInstanceAs (Decidable (_ ∧ _))

/-! ### From zero -/

@[simp] theorem littleEndian_nil : littleEndian [] = 0 := rfl

theorem littleEndian_cons (low : UInt8) (rest : List UInt8) :
    littleEndian (low :: rest) = low.toNat + 256 * littleEndian rest := rfl

/-- A sum from its first digit, which leaves a carry, and from the other digits with that carry. -/
theorem littleEndian_cons_of_carry {digit : UInt8} {digits : List UInt8}
    {low rest count first middle last : Nat} (hlow : digit.toNat + 256 * middle = low + first)
    (hrest : littleEndian digits + 256 ^ count * last = rest + middle) :
    littleEndian (digit :: digits) + 256 ^ (count + 1) * last = low + 256 * rest + first := by
  calc digit.toNat + 256 * littleEndian digits + 256 ^ (count + 1) * last
      = digit.toNat + 256 * (littleEndian digits + 256 ^ count * last) := by ring
    _ = digit.toNat + 256 * middle + 256 * rest := by rw [hrest]; ring
    _ = low + 256 * rest + first := by rw [hlow]; ring

/-- A number and its complement add up to all ones. -/
theorem littleEndian_complement (bytes : List UInt8) :
    littleEndian (bytes.map (~~~·)) + littleEndian bytes + 1 = 256 ^ bytes.length := by
  induction bytes with
  | nil => simp
  | cons low rest ih =>
    have hlow := low.toNat_lt
    rw [List.map_cons, littleEndian_cons, littleEndian_cons, toNat_complement, List.length_cons,
      pow_succ]
    omega

theorem littleEndian_lt (bytes : List UInt8) : littleEndian bytes < 256 ^ bytes.length := by
  have hsum := littleEndian_complement bytes
  omega

/-! ### Two's complement -/

theorem twosComplement_singleton (byte : UInt8) :
    twosComplement [byte] = byte.toInt8.toInt := by
  rw [twosComplement, toInt_toInt8, littleEndian_cons, littleEndian_nil]
  simp only [List.length_singleton, pow_one, Nat.mul_zero, Nat.add_zero]
  split <;> split <;> omega

/-- The sign is in the last byte, so the first one counts from zero if others follow. -/
theorem twosComplement_cons (low : UInt8) {rest : List UInt8} (hrest : rest ≠ []) :
    twosComplement (low :: rest) = low.toNat + 256 * twosComplement rest := by
  have hlow := low.toNat_lt
  obtain ⟨count, hcount⟩ :=
    Nat.exists_eq_succ_of_ne_zero fun h ↦ hrest (List.length_eq_zero_iff.mp h)
  rw [twosComplement, twosComplement, littleEndian_cons, List.length_cons, hcount]
  simp only [pow_succ, Nat.succ_eq_add_one]
  split <;> split <;> omega

/-- The complement of a number in two's complement is minus one less the number. -/
theorem twosComplement_complement {bytes : List UInt8} (hbytes : bytes ≠ []) :
    twosComplement (bytes.map (~~~·)) = -1 - twosComplement bytes := by
  have hsum := littleEndian_complement bytes
  obtain ⟨count, hcount⟩ :=
    Nat.exists_eq_succ_of_ne_zero fun h ↦ hbytes (List.length_eq_zero_iff.mp h)
  rw [twosComplement, twosComplement, List.length_map]
  rw [hcount] at hsum ⊢
  simp only [pow_succ, Nat.succ_eq_add_one] at hsum ⊢
  split <;> split <;> omega

/-- The first byte decides nothing about the range if others follow. -/
theorem fitsSigned_succ_iff {low : Nat} (hlow : low < 256) {count : Nat} (hcount : count ≠ 0)
    (value : Int) : FitsSigned (count + 1) (low + 256 * value) ↔ FitsSigned count value := by
  obtain ⟨count, rfl⟩ := Nat.exists_eq_succ_of_ne_zero hcount
  simp only [FitsSigned, pow_succ, Nat.succ_eq_add_one]
  omega

theorem fitsSigned_one_iff (value : Int) : FitsSigned 1 value ↔ -128 ≤ value ∧ value ≤ 127 := by
  simp only [FitsSigned, pow_one]
  omega

end Mos6502
