import Mos6502.Proofs.Calls
import Mos6502.Proofs.Traffic

/-!
What a turn of the processor leaves, as functions of the registers and the memory that it finds.
The traffic of an instruction comes down to one byte that it gets from its effective address, and
one byte that it may put there: `Instruction.run_execute`. `Machine.run_cycle_of_decode` and
`Machine.run_cycle_of_unsupported` are the two ways in which a turn can go.
-/

set_option autoImplicit false
set_option relaxedAutoImplicit false

namespace Mos6502

namespace Instruction

/-- The address that an instruction works on. Where there is no mode nothing depends on it. -/
def effectiveAddress (rule : IndirectRule) (registers : Registers) (memory : Memory)
    (instruction : Instruction) : UInt16 :=
  match instruction.mode with
  | none => 0
  | some mode => mode.effectiveAddress rule registers memory

/-- The registers after an instruction that found a byte at its effective address. The program
counter stays. -/
def apply (registers : Registers) (operand : UInt8) : Instruction → Registers
  | .operate operation _ => operation.apply registers operand
  | .store _ _ => registers
  | .shift _ => { registers with status := registers.status.withShift operand }
  | .act action => action.apply registers
  | .brk => { registers with status := { registers.status with breakMark := true } }

/-- The byte that an instruction puts to its effective address, if it does. -/
def stored? (registers : Registers) (operand : UInt8) : Instruction → Option UInt8
  | .store kind _ => some (registers.get kind.source)
  | .shift _ => some (operand <<< 1)
  | .operate _ _ | .act _ | .brk => none

/-- Executing an instruction applies it to the byte at its effective address. -/
theorem run_execute {α : Type} (rule : IndirectRule) (registers : Registers)
    (instruction : Instruction) (next : Registers → BusProgram α) (memory : Memory) :
    (instruction.execute rule registers next).run memory =
      let address := instruction.effectiveAddress rule registers memory
      let operand := memory.read address
      (next (instruction.apply registers operand)).run
        ((instruction.stored? registers operand).elim memory (memory.write address)) := by
  cases instruction with
  | operate operation mode =>
    rw [execute, Mode.run_resolve]
    rfl
  | store kind mode =>
    rw [execute, Mode.run_resolve]
    rfl
  | shift mode =>
    rw [execute, Mode.run_resolve]
    rfl
  | act action => rfl
  | brk => rfl

/-- An instruction leaves the program counter to the cycle. -/
@[simp] theorem pc_apply (registers : Registers) (operand : UInt8) (instruction : Instruction) :
    (instruction.apply registers operand).pc = registers.pc := by
  cases instruction with
  | operate operation mode => cases operation <;> rfl
  | store kind mode => rfl
  | shift mode => rfl
  | act action =>
    cases action with
    | transfer move => cases move <;> rfl
    | asl | sec | sed | sei | nop => rfl
  | brk => rfl

theorem outcome_of_ne_brk {instruction : Instruction} (hbrk : instruction ≠ .brk) :
    instruction.outcome = .completed := by
  cases instruction with
  | brk => exact absurd rfl hbrk
  | operate | store | shift | act => rfl

end Instruction

namespace Machine

/-- A machine whose opcode has been fetched. -/
def fetched (machine : Machine) : Machine :=
  { machine with registers := machine.registers.advance 1 }

/-- The address that an instruction at the program counter works on. -/
def effectiveAddress (machine : Machine) (instruction : Instruction) : UInt16 :=
  instruction.effectiveAddress machine.settings.indirect machine.fetched.registers machine.memory

/-- A mode has an operand address, which is its effective address. -/
theorem operandAddress_eq (machine : Machine) (mode : Mode) :
    machine.operandAddress (some mode) =
      .ok (mode.effectiveAddress machine.settings.indirect machine.registers machine.memory) := by
  rw [operandAddress, resolveOperand, BusProgram.observe_eq, Mode.run_resolve]
  rfl

/-- Behind the opcode the operand address of a mode is the one that the instruction works on. -/
theorem operandAddress_fetched (machine : Machine) {instruction : Instruction} {mode : Mode}
    (hmode : instruction.mode = some mode) :
    machine.fetched.operandAddress (some mode) = .ok (machine.effectiveAddress instruction) := by
  rw [operandAddress_eq, effectiveAddress, Instruction.effectiveAddress, hmode]
  rfl

/-- A turn that finds an instruction applies it and moves the program counter behind it. -/
theorem run_cycle_of_decode {machine : Machine} {instruction : Instruction}
    (hdecode : decode (machine.memory.read machine.registers.pc) = some instruction) :
    machine.cycle.run machine.memory =
      let address := machine.effectiveAddress instruction
      let operand := machine.memory.read address
      let registers := machine.fetched.registers
      ((instruction.outcome,
          (instruction.apply registers operand).advance instruction.operandWidth),
        (instruction.stored? registers operand).elim machine.memory
          (machine.memory.write address)) := by
  rw [cycle, instructionCycle, BusProgram.run_read, hdecode]
  exact Instruction.run_execute _ _ _ _ _

/-- A turn that finds no instruction is a fault and moves the program counter behind the opcode. -/
theorem run_cycle_of_unsupported {machine : Machine}
    (hdecode : decode (machine.memory.read machine.registers.pc) = none) :
    machine.cycle.run machine.memory =
      ((.unsupported ⟨machine.memory.read machine.registers.pc, machine.registers.pc⟩,
        machine.fetched.registers), machine.memory) := by
  rw [cycle, instructionCycle, BusProgram.run_read, hdecode]
  rfl

/-! ### A step at an instruction -/

section Decoded

variable {machine : Machine} {instruction : Instruction} (hrunning : machine.state = .running)
  (hdecode : decode (machine.memory.read machine.registers.pc) = some instruction)
include hrunning hdecode

theorem outcome_step_of_decode : machine.step.1 = some instruction.outcome := by
  rw [outcome_step hrunning, run_cycle_of_decode hdecode]

theorem state_step_of_decode : machine.step.2.state = instruction.outcome.state := by
  rw [state_step hrunning, run_cycle_of_decode hdecode]

theorem registers_step_of_decode :
    machine.step.2.registers =
      (instruction.apply machine.fetched.registers
        (machine.memory.read (machine.effectiveAddress instruction))).advance
          instruction.operandWidth := by
  rw [registers_step hrunning, run_cycle_of_decode hdecode]

theorem memory_step_of_decode :
    machine.step.2.memory =
      (instruction.stored? machine.fetched.registers
        (machine.memory.read (machine.effectiveAddress instruction))).elim machine.memory
          (machine.memory.write (machine.effectiveAddress instruction)) := by
  rw [memory_step hrunning, run_cycle_of_decode hdecode]

end Decoded

end Machine

end Mos6502
