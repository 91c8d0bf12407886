import Mos6502.Registers

/-!
Addition with carry in numbers. A byte stands for a number below 256, and as a two's complement
byte for one from -128 to 127 (`toInt_toInt8`).

The processor adds the old carry apart from the operand, and each of the two sums may have a ninth
bit. `Registers.carry_addWithCarry` says that none of them is lost or counts twice, and
`Registers.toNat_addWithCarry` that the carry and the accumulator together hold the sum of the
unsigned bytes and the old carry. The overflow flag tells whether the sum of the signed bytes and
the old carry leaves the range of a signed byte (`Registers.overflow_addWithCarry`).
-/

set_option autoImplicit false
set_option relaxedAutoImplicit false

namespace Mos6502

/-! ### Signed bytes -/

/-- A byte from 128 on stands for a negative number. -/
theorem toInt_toInt8 (byte : UInt8) :
    byte.toInt8.toInt = if byte.toNat < 128 then (byte.toNat : Int) else byte.toNat - 256 := by
  change byte.toBitVec.toInt = _
  rw [BitVec.toInt_eq_toNat_cond]
  change (if 2 * byte.toNat < 2 ^ 8 then (byte.toNat : Int) else byte.toNat - (2 ^ 8 : Nat)) = _
  split <;> split <;> omega

/-- The complement of a byte stands for 255 less the byte. -/
theorem toNat_complement (byte : UInt8) : (~~~byte).toNat = 255 - byte.toNat := by
  rw [UInt8.toNat_not]
  rfl

namespace Status

theorem isNegative_eq_msb (byte : UInt8) : isNegative byte = byte.toBitVec.msb := by
  have finite : ∀ code : Fin 256,
      isNegative (UInt8.ofNat code) = (UInt8.ofNat code).toBitVec.msb := by
    decide +kernel
  simpa using finite ⟨byte.toNat, byte.toNat_lt⟩

theorem isNegative_eq (byte : UInt8) : isNegative byte = decide (128 ≤ byte.toNat) := by
  rw [isNegative_eq_msb, BitVec.msb_eq_decide]
  rfl

theorem isNegative_xor (first second : UInt8) :
    isNegative (first ^^^ second) = (isNegative first ^^ isNegative second) := by
  rw [isNegative_eq_msb, isNegative_eq_msb, isNegative_eq_msb, UInt8.toBitVec_xor, BitVec.msb_xor]

theorem isNegative_and (first second : UInt8) :
    isNegative (first &&& second) = (isNegative first && isNegative second) := by
  rw [isNegative_eq_msb, isNegative_eq_msb, isNegative_eq_msb, UInt8.toBitVec_and, BitVec.msb_and]

/-- A result overflows if its sign is neither that of the first nor that of the second operand. -/
theorem isOverflow_eq (first second result : UInt8) :
    isOverflow first second result =
      ((isNegative first ^^ isNegative result) && (isNegative second ^^ isNegative result)) := by
  rw [← isNegative_xor, ← isNegative_xor, ← isNegative_and]
  rfl

/-- The sum of two bytes and a carry overflows exactly if as a signed number it does not fit into a
byte. -/
theorem isOverflow_sum_iff (first second : UInt8) (carry : Bool) :
    isOverflow first second (UInt8.ofNat (first.toNat + second.toNat + carry.toNat)) = true ↔
      ¬(-128 ≤ first.toInt8.toInt + second.toInt8.toInt + carry.toNat ∧
        first.toInt8.toInt + second.toInt8.toInt + carry.toNat ≤ 127) := by
  have hfirst := first.toNat_lt
  have hsecond := second.toNat_lt
  have hcarry := carry.toNat_le
  rw [isOverflow_eq, isNegative_eq, isNegative_eq, isNegative_eq, toInt_toInt8, toInt_toInt8]
  simp only [UInt8.toNat_ofNat', Bool.and_eq_true, bne_iff_ne, ne_eq, decide_eq_decide]
  split <;> split <;> omega

end Status

/-! ### The sum in the registers -/

namespace Registers

theorem toNat_partialSum (registers : Registers) (operand : UInt8) :
    (registers.partialSum operand).toNat = registers.a.toNat + operand.toNat := by
  have ha := registers.a.toNat_lt
  have hoperand := operand.toNat_lt
  rw [partialSum, UInt16.toNat_add, UInt8.toNat_toUInt16, UInt8.toNat_toUInt16]
  omega

/-- The second sum has what the first one leaves below its ninth bit. -/
theorem toNat_carriedSum (registers : Registers) (operand : UInt8) :
    (registers.carriedSum operand).toNat =
      (registers.a.toNat + operand.toNat) % 256 + registers.status.carry.toNat := by
  have hmask : (registers.partialSum operand &&& 0xFF).toNat =
      (registers.a.toNat + operand.toNat) % 256 := by
    rw [UInt16.toNat_and, toNat_partialSum]
    exact Nat.and_two_pow_sub_one_eq_mod _ 8
  have hcarry : (if registers.status.carry then 1 else 0 : UInt16).toNat =
      registers.status.carry.toNat := by
    cases registers.status.carry <;> rfl
  have hbit := registers.status.carry.toNat_le
  rw [carriedSum, UInt16.toNat_add, hmask, hcarry]
  omega

/-- The accumulator holds the low byte of the sum of all three. -/
theorem a_addWithCarry (registers : Registers) (operand : UInt8) :
    (registers.addWithCarry operand).a =
      UInt8.ofNat (registers.a.toNat + operand.toNat + registers.status.carry.toNat) := by
  have ha : (registers.addWithCarry operand).a = (registers.carriedSum operand).toUInt8 := rfl
  apply UInt8.toNat_inj.mp
  rw [ha, UInt16.toNat_toUInt8, toNat_carriedSum, UInt8.toNat_ofNat']
  omega

/-- One of the two sums has a ninth bit exactly if the sum of all three has one. No more than one of
them can have it, since the first is 510 at most. -/
theorem carry_addWithCarry (registers : Registers) (operand : UInt8) :
    (registers.addWithCarry operand).status.carry =
      decide (256 ≤ registers.a.toNat + operand.toNat + registers.status.carry.toNat) := by
  have hbit := registers.status.carry.toNat_le
  have hfirst : 0xFF < registers.partialSum operand ↔
      256 ≤ registers.a.toNat + operand.toNat := by
    rw [UInt16.lt_iff_toNat_lt, toNat_partialSum]
    exact Nat.lt_iff_add_one_le
  have hsecond : 0xFF < registers.carriedSum operand ↔
      256 ≤ (registers.a.toNat + operand.toNat) % 256 + registers.status.carry.toNat := by
    rw [UInt16.lt_iff_toNat_lt, toNat_carriedSum]
    exact Nat.lt_iff_add_one_le
  have hcarry : (registers.addWithCarry operand).status.carry =
      decide (0xFF < registers.partialSum operand ∨ 0xFF < registers.carriedSum operand) :=
    (Bool.decide_or _ _).symm
  rw [hcarry, decide_eq_decide, hfirst, hsecond]
  omega

/-- The carry is the ninth bit of the sum, and the accumulator holds the others. -/
theorem toNat_addWithCarry (registers : Registers) (operand : UInt8) :
    (registers.addWithCarry operand).a.toNat +
        256 * (registers.addWithCarry operand).status.carry.toNat =
      registers.a.toNat + operand.toNat + registers.status.carry.toNat := by
  have ha := registers.a.toNat_lt
  have hoperand := operand.toNat_lt
  have hcarry := registers.status.carry.toNat_le
  rw [a_addWithCarry, carry_addWithCarry, UInt8.toNat_ofNat']
  by_cases hsum : 256 ≤ registers.a.toNat + operand.toNat + registers.status.carry.toNat
  · rw [decide_eq_true hsum, Bool.toNat_true]
    omega
  · rw [decide_eq_false hsum, Bool.toNat_false]
    omega

/-- The overflow flag tells whether the signed sum does not fit into a byte. -/
theorem overflow_addWithCarry (registers : Registers) (operand : UInt8) :
    (registers.addWithCarry operand).status.overflow = true ↔
      ¬(-128 ≤ registers.a.toInt8.toInt + operand.toInt8.toInt + registers.status.carry.toNat ∧
        registers.a.toInt8.toInt + operand.toInt8.toInt + registers.status.carry.toNat ≤ 127) := by
  have hoverflow : (registers.addWithCarry operand).status.overflow =
      Status.isOverflow registers.a operand (registers.addWithCarry operand).a := rfl
  rw [hoverflow, a_addWithCarry]
  exact Status.isOverflow_sum_iff registers.a operand registers.status.carry

/-- The accumulator holds the sum modulo 256. -/
theorem a_addWithCarry_eq_add (registers : Registers) (operand : UInt8) :
    (registers.addWithCarry operand).a =
      registers.a + operand + (if registers.status.carry then 1 else 0) := by
  apply UInt8.toNat_inj.mp
  rw [a_addWithCarry, UInt8.toNat_ofNat', UInt8.toNat_add, UInt8.toNat_add]
  cases registers.status.carry
  · simp
  · simp

/-! ### The difference in the registers -/

/-- Adding the complement leaves the difference modulo 256, less one if there is no carry. -/
theorem a_addWithCarry_complement (registers : Registers) (operand : UInt8) :
    (registers.addWithCarry (~~~operand)).a =
      registers.a - operand - (if registers.status.carry then 0 else 1) := by
  have hoperand := operand.toNat_lt
  apply UInt8.toNat_inj.mp
  rw [a_addWithCarry, UInt8.toNat_ofNat', toNat_complement, UInt8.toNat_sub, UInt8.toNat_sub]
  cases registers.status.carry
  · simp
    omega
  · simp
    omega

/-- Adding the complement carries exactly if the subtraction needs no borrow. -/
theorem carry_addWithCarry_complement (registers : Registers) (operand : UInt8) :
    (registers.addWithCarry (~~~operand)).status.carry =
      decide (operand.toNat + (!registers.status.carry).toNat ≤ registers.a.toNat) := by
  have hoperand := operand.toNat_lt
  rw [carry_addWithCarry, toNat_complement]
  cases registers.status.carry
  · simp
    omega
  · simp
    omega

theorem toInt_complement (byte : UInt8) : (~~~byte).toInt8.toInt = -1 - byte.toInt8.toInt := by
  have hbyte := byte.toNat_lt
  rw [toInt_toInt8, toInt_toInt8, toNat_complement]
  split <;> split <;> omega

/-- Adding the complement overflows exactly if the signed difference, less one if there is no
carry, does not fit into a byte. -/
theorem overflow_addWithCarry_complement (registers : Registers) (operand : UInt8) :
    (registers.addWithCarry (~~~operand)).status.overflow = true ↔
      ¬(-128 ≤ registers.a.toInt8.toInt - operand.toInt8.toInt -
            (!registers.status.carry).toNat ∧
        registers.a.toInt8.toInt - operand.toInt8.toInt - (!registers.status.carry).toNat ≤
          127) := by
  rw [overflow_addWithCarry, toInt_complement]
  cases registers.status.carry
  · simp
    omega
  · simp
    omega

end Registers

end Mos6502
