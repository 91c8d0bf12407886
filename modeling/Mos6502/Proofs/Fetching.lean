import Mos6502.Proofs.Cycle

/-!
What the opcode at the program counter settles about a step of a running machine, whatever its
addressing mode and its operands. The step halts at a break, is a fault where there is no
instruction, and completes otherwise (`Machine.outcome_step_eq`). In all three cases the program
counter moves by the length of the instruction (`Machine.pc_step`), which is one to three bytes.
-/

set_option autoImplicit false
set_option relaxedAutoImplicit false

namespace Mos6502

/-! ### Lengths -/

/-- The length of an instruction by its mode; without an instruction there is no mode either. -/
theorem instructionLength_eq (opcode : UInt8) :
    instructionLength opcode = 1 + Mode.widthOf (modeOf opcode) := by
  unfold instructionLength modeOf
  cases decode opcode with
  | none => rfl
  | some instruction => rfl

theorem instructionLength_pos (opcode : UInt8) : 1 ≤ instructionLength opcode := by
  rw [instructionLength_eq]
  exact Nat.le_add_right 1 _

theorem widthOf_le_two (mode : Option Mode) : Mode.widthOf mode ≤ 2 := by
  cases mode with
  | none => exact Nat.zero_le 2
  | some mode => cases mode <;> decide

theorem instructionLength_le_three (opcode : UInt8) : instructionLength opcode ≤ 3 := by
  rw [instructionLength_eq]
  exact Nat.add_le_add_left (widthOf_le_two _) 1

theorem instructionLength_of_decode {opcode : UInt8} {instruction : Instruction}
    (hdecode : decode opcode = some instruction) :
    instructionLength opcode = instruction.length := by
  rw [instructionLength, hdecode]

namespace Machine

/-! ### The next step -/

/-- The opcode that the next step fetches. -/
def opcode (machine : Machine) : UInt8 := machine.memory.read machine.registers.pc

/-- The outcome that the opcode at the program counter settles. -/
def outcomeAhead (machine : Machine) : Outcome :=
  match decode machine.opcode with
  | none => .unsupported ⟨machine.opcode, machine.registers.pc⟩
  | some instruction => instruction.outcome

section Running

variable {machine : Machine} (hrunning : machine.state = .running)
include hrunning

/-- A step ends as its opcode says. -/
theorem outcome_step_eq : machine.step.1 = some machine.outcomeAhead := by
  unfold outcomeAhead
  split
  · next hdecode => rw [outcome_step hrunning, run_cycle_of_unsupported hdecode]; rfl
  · next instruction hdecode => exact outcome_step_of_decode hrunning hdecode

theorem state_step_eq : machine.step.2.state = machine.outcomeAhead.state := by
  have houtcome := outcome_step_eq hrunning
  rw [outcome_step hrunning] at houtcome
  rw [state_step hrunning, Option.some.inj houtcome]

/-- A step moves the program counter by the length of its instruction, whatever the outcome. -/
theorem pc_step :
    machine.step.2.registers.pc =
      machine.registers.pc + UInt16.ofNat (instructionLength machine.opcode) := by
  unfold instructionLength
  split
  · next hdecode => rw [registers_step hrunning, run_cycle_of_unsupported hdecode]; rfl
  · next instruction hdecode =>
    have hpc := Instruction.pc_apply machine.fetched.registers
      (machine.memory.read (machine.effectiveAddress instruction)) instruction
    rw [registers_step_of_decode hrunning hdecode, Registers.advance, hpc, Instruction.length,
      UInt16.ofNat_add, ← UInt16.add_assoc]
    rfl

end Running

/-! ### The three outcomes -/

section Outcomes

variable (machine : Machine)

theorem outcomeAhead_eq_halted_iff :
    machine.outcomeAhead = .halted ↔ decode machine.opcode = some .brk := by
  unfold outcomeAhead
  cases decode machine.opcode with
  | none => simp
  | some instruction => cases instruction <;> simp [Instruction.outcome]

theorem outcomeAhead_eq_unsupported_iff :
    (∃ fault, machine.outcomeAhead = .unsupported fault) ↔ decode machine.opcode = none := by
  unfold outcomeAhead
  cases decode machine.opcode with
  | none => simp
  | some instruction => cases instruction <;> simp [Instruction.outcome]

end Outcomes

section Running

variable {machine : Machine} (hrunning : machine.state = .running)
include hrunning

theorem halted_step_iff : machine.step.2.state = .halted ↔ decode machine.opcode = some .brk := by
  rw [state_step_eq hrunning, ← outcomeAhead_eq_halted_iff]
  cases machine.outcomeAhead <;> simp [Outcome.state]

theorem faulted_step_iff : machine.step.2.state = .faulted ↔ decode machine.opcode = none := by
  rw [state_step_eq hrunning, ← outcomeAhead_eq_unsupported_iff]
  cases machine.outcomeAhead <;> simp [Outcome.state]

end Running

end Machine

end Mos6502
