import Mos6502.Proofs.Addition
import Mos6502.Proofs.Cycle
import Mos6502.Proofs.Encodings

/-!
The data sheet of the instructions: for each one the byte that it computes, where that byte goes,
and what it means for the flags. `Instruction.Performs` says that a machine came from another one
as the data sheet has it, with nothing else changed, and `Machine.step_performs` that a step of a
running machine does this for every instruction but the break.
-/

set_option autoImplicit false
set_option relaxedAutoImplicit false

namespace Mos6502

/-- Where an instruction puts the byte that it computes. -/
inductive Destination
  | register (register : Register)
  | memory
  deriving DecidableEq

namespace Instruction

/-! ### The columns of the data sheet -/

/-- Where the byte goes, if the instruction computes one. -/
def destination : Instruction → Option Destination
  | .operate .ldx _ | .act (.transfer .tax) | .act (.transfer .tsx) => some (.register .x)
  | .operate .ldy _ | .act (.transfer .tay) => some (.register .y)
  | .operate _ _ | .act .asl | .act (.transfer .txa) | .act (.transfer .tya) =>
      some (.register .a)
  | .act (.transfer .txs) => some (.register .sp)
  | .store _ _ | .shift _ => some .memory
  | .act .sec | .act .sed | .act .sei | .act .nop | .brk => none

/-- The byte that an instruction computes from the registers and the byte at its effective
address. Additions and doublings are modulo 256. -/
def computed (registers : Registers) (operand : UInt8) : Instruction → UInt8
  | .operate .adc _ => registers.a + operand + (if registers.status.carry then 1 else 0)
  | .operate .sbc _ => registers.a - operand - (if registers.status.carry then 0 else 1)
  | .operate .and _ => registers.a &&& operand
  | .operate .ora _ => registers.a ||| operand
  | .operate .eor _ => registers.a ^^^ operand
  | .operate .lda _ | .operate .ldx _ | .operate .ldy _ => operand
  | .shift _ => 2 * operand
  | .act .asl => 2 * registers.a
  | .store .sta _ | .act (.transfer .tax) | .act (.transfer .tay) => registers.a
  | .store .stx _ | .act (.transfer .txa) | .act (.transfer .txs) => registers.x
  | .store .sty _ | .act (.transfer .tya) => registers.y
  | .act (.transfer .tsx) => registers.sp
  | .act .sec | .act .sed | .act .sei | .act .nop | .brk => 0

/-- Whether the zero and negative flags tell of the byte that an instruction computes. Stores and
the transfer to the stack pointer leave them alone. -/
def setsResultFlags : Instruction → Bool
  | .operate _ _ | .shift _ | .act .asl => true
  | .act (.transfer move) => move ≠ .txs
  | .store _ _ | .act .sec | .act .sed | .act .sei | .act .nop | .brk => false

/-- The carry after an instruction: what an addition carries, whether a subtraction needs no
borrow, and the bit that a shift pushes out. -/
def carryAfter (registers : Registers) (operand : UInt8) : Instruction → Bool
  | .operate .adc _ =>
      256 ≤ registers.a.toNat + operand.toNat + registers.status.carry.toNat
  | .operate .sbc _ => operand.toNat + (!registers.status.carry).toNat ≤ registers.a.toNat
  | .shift _ => 128 ≤ operand.toNat
  | .act .asl => 128 ≤ registers.a.toNat
  | .act .sec => true
  | _ => registers.status.carry

/-- The overflow flag after an instruction: whether a signed sum or difference leaves the range of
a byte. -/
def overflowAfter (registers : Registers) (operand : UInt8) : Instruction → Bool
  | .operate .adc _ =>
      let sum := registers.a.toInt8.toInt + operand.toInt8.toInt + registers.status.carry.toNat
      ¬(-128 ≤ sum ∧ sum ≤ 127)
  | .operate .sbc _ =>
      let difference :=
        registers.a.toInt8.toInt - operand.toInt8.toInt - (!registers.status.carry).toNat
      ¬(-128 ≤ difference ∧ difference ≤ 127)
  | _ => registers.status.overflow

/-- Whether a machine comes from another one by what the data sheet says of an instruction, with
the given effective address. Every part of the machine is told of, but for the frames of a machine
that traces. -/
structure Performs (instruction : Instruction) (address : UInt16) (before after : Machine) :
    Prop where
  register : ∀ register, after.registers.get register =
    if instruction.destination = some (.register register) then
      instruction.computed before.registers (before.memory.read address)
    else before.registers.get register
  memory : ∀ place, after.memory.read place =
    if instruction.destination = some .memory ∧ place = address then
      instruction.computed before.registers (before.memory.read address)
    else before.memory.read place
  pc : after.registers.pc = before.registers.pc + 1 + UInt16.ofNat instruction.operandWidth
  zero : after.registers.status.zero =
    if instruction.setsResultFlags then
      decide (instruction.computed before.registers (before.memory.read address) = 0)
    else before.registers.status.zero
  negative : after.registers.status.negative =
    if instruction.setsResultFlags then
      decide (128 ≤ (instruction.computed before.registers (before.memory.read address)).toNat)
    else before.registers.status.negative
  carry : after.registers.status.carry =
    instruction.carryAfter before.registers (before.memory.read address)
  overflow : after.registers.status.overflow =
    instruction.overflowAfter before.registers (before.memory.read address)
  decimalMode : after.registers.status.decimalMode =
    (instruction = .act .sed || before.registers.status.decimalMode)
  interruptDisable : after.registers.status.interruptDisable =
    (instruction = .act .sei || before.registers.status.interruptDisable)
  breakMark : after.registers.status.breakMark = before.registers.status.breakMark
  reserved : after.registers.status.reserved = before.registers.status.reserved
  state : after.state = before.state
  steps : after.steps = before.steps + 1
  settings : after.settings = before.settings
  timeline : before.settings.trace = false → after.timeline = before.timeline
  pending : after.pending = []

/-! ### The columns do not depend on the program counter -/

section Advance

variable (registers : Registers) (count : Nat)

@[simp] theorem get_advance (register : Register) :
    (registers.advance count).get register = registers.get register := by
  cases register <;> rfl

@[simp] theorem status_advance : (registers.advance count).status = registers.status := rfl

@[simp] theorem pc_advance :
    (registers.advance count).pc = registers.pc + UInt16.ofNat count := rfl

@[simp] theorem computed_advance (operand : UInt8) (instruction : Instruction) :
    instruction.computed (registers.advance count) operand =
      instruction.computed registers operand := rfl

@[simp] theorem carryAfter_advance (operand : UInt8) (instruction : Instruction) :
    instruction.carryAfter (registers.advance count) operand =
      instruction.carryAfter registers operand := rfl

@[simp] theorem overflowAfter_advance (operand : UInt8) (instruction : Instruction) :
    instruction.overflowAfter (registers.advance count) operand =
      instruction.overflowAfter registers operand := rfl

end Advance

/-! ### Each column against the execution -/

theorem two_mul_eq_shiftLeft (byte : UInt8) : (2 : UInt8) * byte = byte <<< 1 := by
  apply UInt8.toNat_inj.mp
  rw [UInt8.toNat_mul, UInt8.toNat_shiftLeft, Nat.shiftLeft_eq, Nat.mul_comm]
  rfl

section Columns

variable (registers : Registers) (operand : UInt8) (instruction : Instruction)

theorem get_apply (register : Register) :
    (instruction.apply registers operand).get register =
      if instruction.destination = some (.register register) then
        instruction.computed registers operand
      else registers.get register := by
  have hsum := registers.a_addWithCarry_eq_add operand
  have hdifference := registers.a_addWithCarry_complement operand
  cases instruction with
  | operate operation mode =>
    cases operation <;> cases register <;> first | rfl | exact hsum | exact hdifference
  | store kind mode => rfl
  | shift mode => rfl
  | act action =>
    cases action with
    | transfer move => cases move <;> cases register <;> rfl
    | asl =>
      cases register with
      | a => exact (two_mul_eq_shiftLeft registers.a).symm
      | x | y | sp => rfl
    | sec | sed | sei | nop => rfl
  | brk => rfl

theorem stored?_eq :
    instruction.stored? registers operand =
      if instruction.destination = some .memory then some (instruction.computed registers operand)
      else none := by
  cases instruction with
  | operate operation mode => cases operation <;> rfl
  | store kind mode => cases kind <;> rfl
  | shift mode => exact congrArg some (two_mul_eq_shiftLeft operand).symm
  | act action =>
    cases action with
    | transfer move => cases move <;> rfl
    | asl | sec | sed | sei | nop => rfl
  | brk => rfl

/-- The memory holds the byte that was computed at its destination, and is the same elsewhere. -/
theorem read_stored (memory : Memory) (address place : UInt16) :
    ((instruction.stored? registers operand).elim memory (memory.write address)).read place =
      if instruction.destination = some .memory ∧ place = address then
        instruction.computed registers operand
      else memory.read place := by
  rw [stored?_eq]
  by_cases hmemory : instruction.destination = some .memory
  · rw [if_pos hmemory, Option.elim_some, Memory.read_write]
    simp only [hmemory, true_and, eq_comm]
  · rw [if_neg hmemory, Option.elim_none, if_neg fun hboth ↦ hmemory hboth.1]

theorem resultFlags_apply :
    (instruction.apply registers operand).status.zero =
        (if instruction.setsResultFlags then
          decide (instruction.computed registers operand = 0)
        else registers.status.zero) ∧
      (instruction.apply registers operand).status.negative =
        (if instruction.setsResultFlags then
          decide (128 ≤ (instruction.computed registers operand).toNat)
        else registers.status.negative) := by
  cases instruction with
  | operate operation mode =>
    cases operation with
    | adc =>
      rw [computed, ← Registers.a_addWithCarry_eq_add]
      exact ⟨rfl, Status.isNegative_eq _⟩
    | sbc =>
      rw [computed, ← Registers.a_addWithCarry_complement]
      exact ⟨rfl, Status.isNegative_eq _⟩
    | and | ora | eor | lda | ldx | ldy => exact ⟨rfl, Status.isNegative_eq _⟩
  | store kind mode => exact ⟨rfl, rfl⟩
  | shift mode =>
    rw [computed, two_mul_eq_shiftLeft]
    exact ⟨rfl, Status.isNegative_eq _⟩
  | act action =>
    cases action with
    | asl =>
      rw [computed, two_mul_eq_shiftLeft]
      exact ⟨rfl, Status.isNegative_eq _⟩
    | transfer move =>
      cases move with
      | txs => exact ⟨rfl, rfl⟩
      | tax | tay | tsx | txa | tya => exact ⟨rfl, Status.isNegative_eq _⟩
    | sec | sed | sei | nop => exact ⟨rfl, rfl⟩
  | brk => exact ⟨rfl, rfl⟩

theorem carry_apply :
    (instruction.apply registers operand).status.carry =
      instruction.carryAfter registers operand := by
  cases instruction with
  | operate operation mode =>
    cases operation with
    | adc => exact Registers.carry_addWithCarry registers operand
    | sbc => exact Registers.carry_addWithCarry_complement registers operand
    | and | ora | eor | lda | ldx | ldy => rfl
  | store kind mode => rfl
  | shift mode => exact Status.isNegative_eq operand
  | act action =>
    cases action with
    | asl => exact Status.isNegative_eq registers.a
    | transfer move => cases move <;> rfl
    | sec | sed | sei | nop => rfl
  | brk => rfl

theorem overflow_apply :
    (instruction.apply registers operand).status.overflow =
      instruction.overflowAfter registers operand := by
  cases instruction with
  | operate operation mode =>
    cases operation with
    | adc =>
      rw [overflowAfter, Bool.eq_iff_iff, decide_eq_true_iff]
      exact registers.overflow_addWithCarry operand
    | sbc =>
      rw [overflowAfter, Bool.eq_iff_iff, decide_eq_true_iff]
      exact registers.overflow_addWithCarry_complement operand
    | and | ora | eor | lda | ldx | ldy => rfl
  | store kind mode => rfl
  | shift mode => rfl
  | act action =>
    cases action with
    | transfer move => cases move <;> rfl
    | asl | sec | sed | sei | nop => rfl
  | brk => rfl

/-- The flags that no result reaches. -/
theorem modeFlags_apply (hbrk : instruction ≠ .brk) :
    (instruction.apply registers operand).status.decimalMode =
        (instruction = .act .sed || registers.status.decimalMode) ∧
      (instruction.apply registers operand).status.interruptDisable =
        (instruction = .act .sei || registers.status.interruptDisable) ∧
      (instruction.apply registers operand).status.breakMark = registers.status.breakMark ∧
      (instruction.apply registers operand).status.reserved = registers.status.reserved := by
  cases instruction with
  | operate operation mode => cases operation <;> exact ⟨rfl, rfl, rfl, rfl⟩
  | store kind mode => exact ⟨rfl, rfl, rfl, rfl⟩
  | shift mode => exact ⟨rfl, rfl, rfl, rfl⟩
  | act action =>
    cases action with
    | transfer move => cases move <;> exact ⟨rfl, rfl, rfl, rfl⟩
    | asl | sec | sed | sei | nop => exact ⟨rfl, rfl, rfl, rfl⟩
  | brk => exact absurd rfl hbrk

end Columns

end Instruction

namespace Machine

open Instruction

/-- A step of a running machine at an instruction other than the break completes, and does what the
data sheet says: the opcode is listed for the instruction, the address that the instruction works
on is the operand address of its mode behind the opcode, and every part of the machine is as the
data sheet tells from the registers and the byte at that address. -/
theorem step_performs (machine : Machine) (hrunning : machine.state = .running)
    (instruction : Instruction)
    (hdecode : decode (machine.memory.read machine.registers.pc) = some instruction)
    (hbrk : instruction ≠ .brk) :
    (machine.memory.read machine.registers.pc, instruction) ∈ Opcode.encodings ∧
      machine.step.1 = some .completed ∧
      ∃ address,
        (∀ mode, instruction.mode = some mode →
          machine.fetched.operandAddress (some mode) = .ok address) ∧
        instruction.Performs address machine machine.step.2 := by
  have houtcome := outcome_of_ne_brk hbrk
  have hregisters := registers_step_of_decode hrunning hdecode
  have hmemory := memory_step_of_decode hrunning hdecode
  have hflags := instruction.resultFlags_apply machine.fetched.registers
    (machine.memory.read (machine.effectiveAddress instruction))
  have hmodes := instruction.modeFlags_apply machine.fetched.registers
    (machine.memory.read (machine.effectiveAddress instruction)) hbrk
  rw [fetched] at hregisters hmemory hflags hmodes
  refine ⟨decode_eq_some_iff.mp hdecode, ?_, machine.effectiveAddress instruction,
    fun mode hmode ↦ machine.operandAddress_fetched hmode, ?_⟩
  · rw [outcome_step_of_decode hrunning hdecode, houtcome]
  · exact {
      register := fun register ↦ by
        rw [hregisters, get_advance, get_apply, get_advance, computed_advance]
      memory := fun place ↦ by rw [hmemory, read_stored, computed_advance]
      pc := by rw [hregisters, pc_advance, pc_apply, pc_advance]; rfl
      zero := by rw [hregisters, status_advance, hflags.1, computed_advance, status_advance]
      negative := by rw [hregisters, status_advance, hflags.2, computed_advance, status_advance]
      carry := by rw [hregisters, status_advance, carry_apply, carryAfter_advance]
      overflow := by rw [hregisters, status_advance, overflow_apply, overflowAfter_advance]
      decimalMode := by rw [hregisters, status_advance, hmodes.1, status_advance]
      interruptDisable := by rw [hregisters, status_advance, hmodes.2.1, status_advance]
      breakMark := by rw [hregisters, status_advance, hmodes.2.2.1, status_advance]
      reserved := by rw [hregisters, status_advance, hmodes.2.2.2, status_advance]
      state := by rw [state_step_of_decode hrunning hdecode, houtcome, hrunning]; rfl
      steps := steps_step hrunning
      settings := machine.settings_step
      timeline := fun htrace ↦ by
        rw [step_of_running machine hrunning]
        simp [htrace]
      pending := pending_step hrunning }

/-- A shift that wraps around the end of memory and doubles its own operand byte. -/
theorem step_performs_of_overwritten_operand :
    let machine : Machine :=
      { registers := { x := 0x7E, pc := 0xFFFE }
        memory := Memory.blank.writeBytes 0xFFFE [0x1E, 0x81, 0xFF] }
    machine.state = .running ∧
      decode (machine.memory.read machine.registers.pc) = some (.shift .absoluteX) ∧
      Instruction.shift .absoluteX ≠ .brk ∧
      (∃ address,
        (∀ mode, (shift .absoluteX).mode = some mode →
          machine.fetched.operandAddress (some mode) = .ok address) ∧
        (shift .absoluteX).Performs address machine machine.step.2) ∧
      machine.step.2.memory.read 0xFFFF = 0x02 ∧ machine.step.2.registers.pc = 0x0001 :=
  ⟨rfl, by decide +kernel, by decide,
    (step_performs _ rfl (.shift .absoluteX) (by decide +kernel) (by decide)).2.2,
    by decide +kernel, by decide +kernel⟩

end Machine

end Mos6502
