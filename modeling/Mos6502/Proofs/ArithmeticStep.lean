import Mos6502.Proofs.Addition
import Mos6502.Proofs.Fetching

/-!
What one step does at an addition or a subtraction. The law of each is said in integers: the
accumulator and the carry with the bytes as unsigned numbers, the overflow flag with the bytes as
signed ones (`Machine.Adds`, `Machine.Subtracts`). A mode comes in only through the byte at its
address (`Machine.operand`), so the laws hold of all encodings.

To subtract a byte is to add its complement, flags included (`Machine.SameResult`).
`Machine.step_adds_and_subtracts` says this of any two machines, together with the two laws.
-/

set_option autoImplicit false
set_option relaxedAutoImplicit false

namespace Mos6502

/-! ### Encodings -/

namespace Opcode

/-- The opcodes of the addition. -/
def additions : List UInt8 := [0x69, 0x65, 0x75, 0x6D, 0x7D, 0x79, 0x61, 0x71]

/-- The opcodes of the subtraction. -/
def subtractions : List UInt8 := [0xE9, 0xE5, 0xF5, 0xED, 0xFD, 0xF9, 0xE1, 0xF1]

theorem decode_of_mem_additions :
    ∀ opcode ∈ additions, ∃ mode ∈ Mode.all, decode opcode = some (.operate .adc mode) := by
  decide +kernel

theorem decode_of_mem_subtractions :
    ∀ opcode ∈ subtractions, ∃ mode ∈ Mode.all, decode opcode = some (.operate .sbc mode) := by
  decide +kernel

end Opcode

/-! ### Sums in the registers -/

theorem complement_eq_sub (byte : UInt8) : ~~~byte = 255 - byte := by
  have hbyte := byte.toNat_lt
  apply UInt8.toNat_inj.mp
  rw [toNat_complement, UInt8.toNat_sub]
  change 255 - byte.toNat = (256 - byte.toNat + 255) % 256
  omega

namespace Registers

/-- What an addition leaves in the accumulator and in the flags that it sets depends on nothing
but the accumulator and the carry before, and the operand. -/
theorem addWithCarry_congr {first second : Registers} (ha : second.a = first.a)
    (hcarry : second.status.carry = first.status.carry) (operand : UInt8) :
    (second.addWithCarry operand).a = (first.addWithCarry operand).a ∧
      (second.addWithCarry operand).status.carry = (first.addWithCarry operand).status.carry ∧
      (second.addWithCarry operand).status.overflow =
        (first.addWithCarry operand).status.overflow ∧
      (second.addWithCarry operand).status.zero = (first.addWithCarry operand).status.zero ∧
      (second.addWithCarry operand).status.negative =
        (first.addWithCarry operand).status.negative := by
  have hpartial : second.partialSum operand = first.partialSum operand := by
    rw [partialSum, ha, partialSum]
  have hcarried : second.carriedSum operand = first.carriedSum operand := by
    rw [carriedSum, hpartial, hcarry, carriedSum]
  simp only [addWithCarry, ha, hpartial, hcarried]
  exact ⟨rfl, rfl, rfl, rfl, rfl⟩

/-- The zero and negative flags tell of the sum. -/
theorem resultFlags_addWithCarry (registers : Registers) (operand : UInt8) :
    ((registers.addWithCarry operand).status.zero = true ↔
        (registers.addWithCarry operand).a = 0) ∧
      ((registers.addWithCarry operand).status.negative = true ↔
        128 ≤ (registers.addWithCarry operand).a.toNat) := by
  have hnegative : (registers.addWithCarry operand).status.negative =
      decide (128 ≤ (registers.addWithCarry operand).a.toNat) := Status.isNegative_eq _
  rw [hnegative, decide_eq_true_iff]
  exact ⟨beq_iff_eq, Iff.rfl⟩

/-- The accumulator holds the sum modulo 256. -/
theorem toNat_a_addWithCarry (registers : Registers) (operand : UInt8) :
    (registers.addWithCarry operand).a.toNat =
      (registers.a.toNat + operand.toNat + registers.status.carry.toNat) % 256 := by
  rw [a_addWithCarry, UInt8.toNat_ofNat']

/-- Adding the complement leaves the difference modulo 256, less one if there is no carry. -/
theorem toNat_a_addWithCarry_complement (registers : Registers) (operand : UInt8) :
    ((registers.addWithCarry (~~~operand)).a.toNat : Int) =
      (registers.a.toNat - operand.toNat - (!registers.status.carry).toNat) % 256 := by
  have hoperand := operand.toNat_lt
  rw [toNat_a_addWithCarry, toNat_complement]
  cases registers.status.carry with
  | false =>
    rw [Bool.toNat_false, Bool.not_false, Bool.toNat_true]
    omega
  | true =>
    rw [Bool.toNat_true, Bool.not_true, Bool.toNat_false]
    omega

end Registers

namespace Machine

/-! ### The laws -/

/-- The byte that the instruction at the program counter works on: the one at the operand address
of its mode, behind the opcode. -/
def operand (machine : Machine) : Except AddressingError UInt8 :=
  (machine.fetched.operandAddress (modeOf (machine.opcode))).map
    machine.memory.read

/-- Whether a machine holds the sum of what another one held with an operand. -/
structure Adds (operand : UInt8) (before after : Machine) : Prop where
  a : after.registers.a.toNat =
    (before.registers.a.toNat + operand.toNat + before.registers.status.carry.toNat) % 256
  carry : after.registers.status.carry = true ↔
    256 ≤ before.registers.a.toNat + operand.toNat + before.registers.status.carry.toNat
  overflow : after.registers.status.overflow = true ↔
    ¬(-128 ≤ before.registers.a.toInt8.toInt + operand.toInt8.toInt +
        before.registers.status.carry.toNat ∧
      before.registers.a.toInt8.toInt + operand.toInt8.toInt +
        before.registers.status.carry.toNat ≤ 127)
  zero : after.registers.status.zero = true ↔ after.registers.a = 0
  negative : after.registers.status.negative = true ↔ 128 ≤ after.registers.a.toNat

/-- Whether a machine holds the difference of what another one held and an operand, less one if
that had no carry. -/
structure Subtracts (operand : UInt8) (before after : Machine) : Prop where
  a : (after.registers.a.toNat : Int) =
    (before.registers.a.toNat - operand.toNat - (!before.registers.status.carry).toNat) % 256
  carry : after.registers.status.carry = true ↔
    operand.toNat + (!before.registers.status.carry).toNat ≤ before.registers.a.toNat
  overflow : after.registers.status.overflow = true ↔
    ¬(-128 ≤ before.registers.a.toInt8.toInt - operand.toInt8.toInt -
        (!before.registers.status.carry).toNat ∧
      before.registers.a.toInt8.toInt - operand.toInt8.toInt -
        (!before.registers.status.carry).toNat ≤ 127)
  zero : after.registers.status.zero = true ↔ after.registers.a = 0
  negative : after.registers.status.negative = true ↔ 128 ≤ after.registers.a.toNat

/-- Whether two machines hold the same result, with the same flags. -/
structure SameResult (first second : Machine) : Prop where
  a : second.registers.a = first.registers.a
  carry : second.registers.status.carry = first.registers.status.carry
  overflow : second.registers.status.overflow = first.registers.status.overflow
  zero : second.registers.status.zero = first.registers.status.zero
  negative : second.registers.status.negative = first.registers.status.negative

/-! ### Steps -/

section Step

variable {machine : Machine} {operation : Operation} {mode : Mode}

/-- An operation works on the byte at the address of its mode. -/
theorem operand_of_decode
    (hdecode : decode (machine.opcode) = some (.operate operation mode)) :
    machine.operand =
      .ok (machine.memory.read (machine.effectiveAddress (.operate operation mode))) := by
  have hmode : (Instruction.operate operation mode).mode = some mode := rfl
  rw [operand, modeOf, hdecode, Option.bind_some, hmode, machine.operandAddress_fetched hmode]
  rfl

/-- A step at an operation applies it to its operand, and moves the program counter. -/
theorem registers_step_of_operand (hrunning : machine.state = .running)
    (hdecode : decode (machine.opcode) = some (.operate operation mode))
    {operand : UInt8} (hoperand : machine.operand = .ok operand) :
    machine.step.2.registers =
      (operation.apply machine.fetched.registers operand).advance mode.operandWidth := by
  rw [operand_of_decode hdecode, Except.ok.injEq] at hoperand
  rw [registers_step_of_decode hrunning hdecode, hoperand]
  rfl

end Step

section Laws

variable {machine : Machine} (hrunning : machine.state = .running) {operand : UInt8}
  (hoperand : machine.operand = .ok operand)
include hrunning hoperand

theorem registers_step_of_addition (hopcode : machine.opcode ∈ Opcode.additions) :
    ∃ count, machine.step.2.registers =
      (machine.fetched.registers.addWithCarry operand).advance count := by
  obtain ⟨mode, -, hdecode⟩ := Opcode.decode_of_mem_additions _ hopcode
  exact ⟨_, registers_step_of_operand hrunning hdecode hoperand⟩

theorem registers_step_of_subtraction (hopcode : machine.opcode ∈ Opcode.subtractions) :
    ∃ count, machine.step.2.registers =
      (machine.fetched.registers.addWithCarry (~~~operand)).advance count := by
  obtain ⟨mode, -, hdecode⟩ := Opcode.decode_of_mem_subtractions _ hopcode
  exact ⟨_, registers_step_of_operand hrunning hdecode hoperand⟩

theorem adds_step (hopcode : machine.opcode ∈ Opcode.additions) :
    machine.Adds operand machine.step.2 := by
  obtain ⟨count, hregisters⟩ := registers_step_of_addition hrunning hoperand hopcode
  have hcarry := machine.fetched.registers.carry_addWithCarry operand
  have hflags := machine.fetched.registers.resultFlags_addWithCarry operand
  constructor
  case a =>
    rw [hregisters]
    exact Registers.toNat_a_addWithCarry _ _
  case carry =>
    rw [hregisters]
    exact (congrArg (· = true) hcarry).to_iff.trans decide_eq_true_iff
  case overflow =>
    rw [hregisters]
    exact Registers.overflow_addWithCarry _ _
  case zero =>
    rw [hregisters]
    exact hflags.1
  case negative =>
    rw [hregisters]
    exact hflags.2

theorem subtracts_step (hopcode : machine.opcode ∈ Opcode.subtractions) :
    machine.Subtracts operand machine.step.2 := by
  obtain ⟨count, hregisters⟩ := registers_step_of_subtraction hrunning hoperand hopcode
  have hcarry := machine.fetched.registers.carry_addWithCarry_complement operand
  have hflags := machine.fetched.registers.resultFlags_addWithCarry (~~~operand)
  constructor
  case a =>
    rw [hregisters]
    exact Registers.toNat_a_addWithCarry_complement _ _
  case carry =>
    rw [hregisters]
    exact (congrArg (· = true) hcarry).to_iff.trans decide_eq_true_iff
  case overflow =>
    rw [hregisters]
    exact Registers.overflow_addWithCarry_complement _ _
  case zero =>
    rw [hregisters]
    exact hflags.1
  case negative =>
    rw [hregisters]
    exact hflags.2

/-- A subtraction leaves what the addition of the complement leaves. -/
theorem sameResult_step (hopcode : machine.opcode ∈ Opcode.subtractions) {other : Machine}
    (hother : other.state = .running) (hadds : other.opcode ∈ Opcode.additions)
    (ha : other.registers.a = machine.registers.a)
    (hcarry : other.registers.status.carry = machine.registers.status.carry)
    (hcomplement : other.operand = .ok (255 - operand)) :
    machine.step.2.SameResult other.step.2 := by
  obtain ⟨count, hregisters⟩ := registers_step_of_subtraction hrunning hoperand hopcode
  obtain ⟨more, hothers⟩ := registers_step_of_addition hother hcomplement hadds
  rw [← complement_eq_sub] at hothers
  have hfetched : other.fetched.registers.a = machine.fetched.registers.a := ha
  have hsame := Registers.addWithCarry_congr hfetched hcarry (~~~operand)
  constructor
  case a =>
    rw [hregisters, hothers]
    exact hsame.1
  case carry =>
    rw [hregisters, hothers]
    exact hsame.2.1
  case overflow =>
    rw [hregisters, hothers]
    exact hsame.2.2.1
  case zero =>
    rw [hregisters, hothers]
    exact hsame.2.2.2.1
  case negative =>
    rw [hregisters, hothers]
    exact hsame.2.2.2.2

end Laws

/-- A step of a running machine at any encoding of the addition completes and follows its law, and
so does one at any encoding of the subtraction. A subtraction of a byte leaves the result and the
flags that an addition of its complement leaves, on any other machine with the same accumulator and
carry and in any modes. -/
theorem step_adds_and_subtracts (machine : Machine) (hrunning : machine.state = .running) :
    (machine.opcode ∈ Opcode.additions →
      ∃ operand, machine.operand = .ok operand ∧ machine.step.1 = some .completed ∧
        machine.Adds operand machine.step.2) ∧
    (machine.opcode ∈ Opcode.subtractions →
      ∃ operand, machine.operand = .ok operand ∧ machine.step.1 = some .completed ∧
        machine.Subtracts operand machine.step.2 ∧
        ∀ other : Machine, other.state = .running → other.opcode ∈ Opcode.additions →
          other.registers.a = machine.registers.a →
          other.registers.status.carry = machine.registers.status.carry →
          other.operand = .ok (255 - operand) → machine.step.2.SameResult other.step.2) := by
  constructor
  · intro hopcode
    obtain ⟨mode, -, hdecode⟩ := Opcode.decode_of_mem_additions _ hopcode
    have hoperand := operand_of_decode hdecode
    exact ⟨_, hoperand, outcome_step_of_decode hrunning hdecode,
      adds_step hrunning hoperand hopcode⟩
  · intro hopcode
    obtain ⟨mode, -, hdecode⟩ := Opcode.decode_of_mem_subtractions _ hopcode
    have hoperand := operand_of_decode hdecode
    exact ⟨_, hoperand, outcome_step_of_decode hrunning hdecode,
      subtracts_step hrunning hoperand hopcode,
      fun other hother hadds ha hcarry hcomplement ↦
        sameResult_step hrunning hoperand hopcode hother hadds ha hcarry hcomplement⟩

/-- A subtraction through a pointer at the end of the zero page, and the addition of an immediate
byte that is the complement of its operand. Decimal mode is on, and the difference overflows. -/
theorem step_adds_and_subtracts_of_decimal_mode :
    let status : Status := { decimalMode := true, carry := true }
    let machine : Machine :=
      { registers := { a := 0x50, y := 0x02, pc := 0xFFFF, status }
        memory :=
          ((Memory.blank.writeBytes 0xFFFF [0xF1, 0xFF]).write 0x00FF 0x10).write 0xFF12 0xB0 }
    let other : Machine :=
      { registers := { a := 0x50, pc := 0x0200, status }
        memory := Memory.blank.writeBytes 0x0200 [0x69, 0x4F] }
    machine.opcode ∈ Opcode.subtractions ∧ machine.operand = .ok 0xB0 ∧
      machine.Subtracts 0xB0 machine.step.2 ∧ other.opcode ∈ Opcode.additions ∧
      other.operand = .ok 0x4F ∧ other.Adds 0x4F other.step.2 ∧
      machine.step.2.SameResult other.step.2 ∧ machine.step.2.registers.a = 0xA0 ∧
      machine.step.2.registers.status.overflow = true := by
  intro status machine other
  have hsbc : decode machine.opcode = some (.operate .sbc .indirectY) := by decide +kernel
  have hadc : decode other.opcode = some (.operate .adc .immediate) := by decide +kernel
  have hfar : machine.memory.read (machine.effectiveAddress (.operate .sbc .indirectY)) = 0xB0 := by
    decide +kernel
  have hnear : other.memory.read (other.effectiveAddress (.operate .adc .immediate)) = 0x4F := by
    decide +kernel
  have hmachine : machine.operand = .ok 0xB0 := by rw [operand_of_decode hsbc, hfar]
  have hother : other.operand = .ok 0x4F := by rw [operand_of_decode hadc, hnear]
  have hsubtraction : machine.opcode ∈ Opcode.subtractions := by decide +kernel
  have haddition : other.opcode ∈ Opcode.additions := by decide +kernel
  obtain ⟨_, hoperand, -, hsubtracts, hsame⟩ :=
    (step_adds_and_subtracts machine rfl).2 hsubtraction
  obtain ⟨_, hadded, -, hadds⟩ := (step_adds_and_subtracts other rfl).1 haddition
  obtain rfl := Except.ok.inj (hmachine.symm.trans hoperand)
  obtain rfl := Except.ok.inj (hother.symm.trans hadded)
  exact ⟨hsubtraction, hmachine, hsubtracts, haddition, hother, hadds,
    hsame other rfl haddition rfl rfl hother, by decide +kernel, by decide +kernel⟩

end Machine

end Mos6502
