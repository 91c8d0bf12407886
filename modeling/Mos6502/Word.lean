/-!
Sixteen-bit words as pairs of bytes, low byte first. Addresses and pointers are such words.
-/

set_option autoImplicit false
set_option relaxedAutoImplicit false

namespace Mos6502

/-- The word with the given low and high byte. -/
def word (low high : UInt8) : UInt16 := low.toUInt16 ||| high.toUInt16 <<< 8

/-- The low byte of a word. -/
def lowByte (value : UInt16) : UInt8 := value.toUInt8

/-- The high byte of a word. -/
def highByte (value : UInt16) : UInt8 := (value >>> 8).toUInt8

/-- The high byte counts 256 times. -/
theorem toNat_word (low high : UInt8) : (word low high).toNat = low.toNat + 256 * high.toNat := by
  have lowSmall : low.toNat < 2 ^ 8 := low.toNat_lt
  have highSmall : high.toNat < 256 := high.toNat_lt
  have shifted : high.toNat <<< 8 < 65536 := by rw [Nat.shiftLeft_eq]; omega
  simp only [word, UInt16.toNat_or, UInt16.toNat_shiftLeft, UInt8.toNat_toUInt16,
    UInt16.reduceToNat, Nat.reduceMod]
  rw [Nat.mod_eq_of_lt shifted, Nat.or_comm, ← Nat.shiftLeft_add_eq_or_of_lt lowSmall,
    Nat.shiftLeft_eq]
  omega

theorem toNat_lowByte (value : UInt16) : (lowByte value).toNat = value.toNat % 256 := by
  simp [lowByte]

theorem toNat_highByte (value : UInt16) : (highByte value).toNat = value.toNat / 256 := by
  have small : value.toNat < 65536 := value.toNat_lt
  simp [highByte, Nat.shiftRight_eq_div_pow]
  omega

/-- A word is made of its two bytes. -/
theorem word_lowByte_highByte (value : UInt16) : word (lowByte value) (highByte value) = value := by
  apply UInt16.toNat_inj.mp
  rw [toNat_word, toNat_lowByte, toNat_highByte]
  omega

end Mos6502
