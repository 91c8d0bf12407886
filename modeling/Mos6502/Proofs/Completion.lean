import Mos6502.Machine.Run
import Mos6502.Proofs.Cycle

/-!
Runs of steps that complete. `Machine.Completes` relates a machine to the one that a number of
completed steps leave. Such steps are the part of a run before it stops: `Machine.run_of_completes`
gives the result of a run that completes them and then halts.

Single steps are given for an operation on an immediate operand, an instruction inside the
processor, a store to an absolute address and the break.
-/

set_option autoImplicit false
set_option relaxedAutoImplicit false

namespace Mos6502

namespace Machine

/-- A number of steps complete, one after the other, and leave a machine. -/
inductive Completes : Machine → Nat → Machine → Prop
  | refl (machine : Machine) : Completes machine 0 machine
  | head {machine next final : Machine} {count : Nat}
      (hstep : machine.step = (some .completed, next)) (hrest : Completes next count final) :
      Completes machine (count + 1) final

namespace Completes

theorem single {machine next : Machine} (hstep : machine.step = (some .completed, next)) :
    machine.Completes 1 next :=
  head hstep (refl next)

theorem trans {machine middle final : Machine} {first second : Nat}
    (hfirst : machine.Completes first middle) (hsecond : middle.Completes second final) :
    machine.Completes (first + second) final := by
  induction hfirst with
  | refl => rwa [Nat.zero_add]
  | @head machine next middle count hstep _ ih =>
    rw [Nat.add_right_comm]
    exact head hstep (ih hsecond)

/-- A run that completes steps goes on from where they lead. -/
theorem runFrom_eq {machine final : Machine} {count : Nat}
    (hcompletes : machine.Completes count final) (executed : UInt64) (budget : Nat) :
    machine.runFrom executed (count + budget) =
      final.runFrom (executed + UInt64.ofNat count) budget := by
  induction hcompletes generalizing executed with
  | refl machine =>
    have hcount : executed + UInt64.ofNat 0 = executed := UInt64.add_zero executed
    rw [Nat.zero_add, hcount]
  | @head machine next final count hstep _ ih =>
    rw [Nat.add_right_comm, runFrom, hstep]
    simp only
    rw [ih, UInt64.add_assoc, UInt64.add_comm 1, UInt64.ofNat_add]
    rfl

end Completes

/-- A run that completes steps and then halts tells their number, modulo 2^64. -/
theorem run_of_completes {machine last final : Machine} {count budget : Nat}
    (hcompletes : machine.Completes count last) (hhalts : last.step = (some .halted, final))
    (hbudget : count < budget) : machine.run budget = some (.ok (UInt64.ofNat count), final) := by
  obtain ⟨more, rfl⟩ := Nat.exists_eq_add_of_lt hbudget
  rw [run, Nat.add_assoc, hcompletes.runFrom_eq, UInt64.zero_add, runFrom, hhalts]

/-! ### Single steps -/

section Single

variable {machine : Machine} (hrunning : machine.state = .running)
include hrunning

/-- A step at an operation with an immediate operand. -/
theorem completes_operate_immediate {operation : Operation}
    (hdecode : decode (machine.memory.read machine.registers.pc) =
      some (.operate operation .immediate)) :
    ∃ next, machine.Completes 1 next ∧ next.state = .running ∧ next.memory = machine.memory ∧
      next.registers =
        (operation.apply (machine.registers.advance 1)
          (machine.memory.read (machine.registers.pc + 1))).advance 1 :=
  ⟨machine.step.2, .single (Prod.ext (outcome_step_of_decode hrunning hdecode) rfl),
    state_step_of_decode hrunning hdecode, memory_step_of_decode hrunning hdecode,
    registers_step_of_decode hrunning hdecode⟩

/-- A step at an instruction that stays inside the processor. -/
theorem completes_act {action : Action}
    (hdecode : decode (machine.memory.read machine.registers.pc) = some (.act action)) :
    ∃ next, machine.Completes 1 next ∧ next.state = .running ∧ next.memory = machine.memory ∧
      next.registers = (action.apply (machine.registers.advance 1)).advance 0 :=
  ⟨machine.step.2, .single (Prod.ext (outcome_step_of_decode hrunning hdecode) rfl),
    state_step_of_decode hrunning hdecode, memory_step_of_decode hrunning hdecode,
    registers_step_of_decode hrunning hdecode⟩

/-- A step at a store to an absolute address. -/
theorem completes_store_absolute {kind : Store}
    (hdecode : decode (machine.memory.read machine.registers.pc) = some (.store kind .absolute)) :
    ∃ next, machine.Completes 1 next ∧ next.state = .running ∧
      next.memory = machine.memory.write (machine.memory.readWord (machine.registers.pc + 1))
        (machine.registers.get kind.source) ∧
      next.registers = (machine.registers.advance 1).advance 2 := by
  refine ⟨machine.step.2, .single (Prod.ext (outcome_step_of_decode hrunning hdecode) rfl),
    state_step_of_decode hrunning hdecode, ?_, registers_step_of_decode hrunning hdecode⟩
  rw [memory_step_of_decode hrunning hdecode]
  cases kind <;> rfl

/-- A step at a break. -/
theorem step_brk (hdecode : decode (machine.memory.read machine.registers.pc) = some .brk) :
    ∃ final, machine.step = (some .halted, final) ∧ final.state = .halted ∧
      final.memory = machine.memory ∧
      final.registers =
        { machine.registers.advance 1 with
          status := { machine.registers.status with breakMark := true } } := by
  refine ⟨machine.step.2, Prod.ext (outcome_step_of_decode hrunning hdecode) rfl,
    state_step_of_decode hrunning hdecode, memory_step_of_decode hrunning hdecode, ?_⟩
  rw [registers_step_of_decode hrunning hdecode]
  simp [Instruction.apply, Registers.advance, fetched, Instruction.operandWidth, Instruction.mode,
    Mode.widthOf]

end Single

end Machine

end Mos6502
