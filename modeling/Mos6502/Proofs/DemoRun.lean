import Mos6502.Proofs.Agreement
import Mos6502.Proofs.FailedCommands
import Mos6502.Proofs.SessionTrace

/-!
The demo, run by the monitor. Its first instructions add a byte to itself, and a reset leaves the
carry flag as it is. So the accumulator ends with one more if there was a carry before
(`Machine.demoSum`). Nothing else that the demo leaves depends on what was before
(`Session.demo_run`). A second run finds the carry of the first one, and does not come to the same
accumulator (`Session.second_demo_run`).

`Machine.turns` makes turns of the processor with registers and a memory alone. A fixed program can
be evaluated with it, whatever the rest of the machine is (`Machine.completes_of_turns`).
-/

set_option autoImplicit false
set_option relaxedAutoImplicit false

namespace Mos6502

namespace Machine

/-! ### Turns of the processor -/

/-- The registers and the memory after a number of turns of the processor, if all of them
complete. -/
def turns (rule : IndirectRule) : Nat → Registers → Memory → Option (Registers × Memory)
  | 0, registers, memory => some (registers, memory)
  | count + 1, registers, memory =>
      match (instructionCycle rule registers).run memory with
      | ((.completed, registers), memory) => turns rule count registers memory
      | _ => none

theorem turns_add (rule : IndirectRule) (first second : Nat) (registers : Registers)
    (memory : Memory) :
    turns rule (first + second) registers memory =
      (turns rule first registers memory).bind fun (registers, memory) ↦
        turns rule second registers memory := by
  induction first generalizing registers memory with
  | zero => rw [Nat.zero_add, turns, Option.bind_some]
  | succ first ih =>
    rw [Nat.add_right_comm, turns, turns]
    split
    · exact ih _ _
    · rfl

/-- A running machine completes the instructions of the turns, and has their registers and their
memory. -/
theorem completes_of_turns {machine : Machine} (hrunning : machine.state = .running) {count : Nat}
    {registers : Registers} {memory : Memory}
    (hturns : turns machine.settings.indirect count machine.registers machine.memory =
      some (registers, memory)) :
    machine.Completes count (machine.after count) ∧
      (machine.after count).registers = registers ∧ (machine.after count).memory = memory := by
  induction count generalizing machine with
  | zero =>
    cases hturns
    exact ⟨.refl machine, rfl, rfl⟩
  | succ count ih =>
    rw [turns] at hturns
    split at hturns
    · next next left hcycle =>
      have hstep : machine.step = (some .completed, machine.step.2) :=
        Prod.ext ((outcome_step hrunning).trans (congrArg (some ·.1.1) hcycle)) rfl
      have hregisters : machine.step.2.registers = next :=
        (registers_step hrunning).trans (congrArg (·.1.2) hcycle)
      have hmemory : machine.step.2.memory = left :=
        (memory_step hrunning).trans (congrArg (·.2) hcycle)
      obtain ⟨hcompletes, hlast⟩ := ih (state_of_step hstep)
        (by rw [settings_step, hregisters, hmemory]; exact hturns)
      rw [after_succ_eq_after_step]
      exact ⟨.head hstep hcompletes, hlast⟩
    · cases hturns

/-! ### The program -/

/-- The memory with the demo in its place, and nothing else but the reset vector. -/
def demoMemory : Memory :=
  (Memory.blank.writeBytes Memory.programOrigin demoProgram).writeWord Memory.resetVector
    Memory.programOrigin

/-- The low byte of twice 81, or one more with a carry. -/
def demoSum (carry : Bool) : UInt8 := if carry then 0x03 else 0x02

/-- The flags that are left by the last of the instructions in front of the break. -/
def demoStatus (status : Status) : Status :=
  { status with negative := false, overflow := false, zero := false, carry := true }

section Turns

variable (rule : IndirectRule) {registers : Registers}

/-- The first three instructions store 81 and add it to itself, which leaves a carry. -/
theorem turns_demo_sum (hpc : registers.pc = 0x8000) :
    turns rule 3 registers demoMemory =
      some ({ registers with
          a := demoSum registers.status.carry
          pc := 0x8008
          status := { demoStatus registers.status with overflow := true } },
        demoMemory.write 0x0200 0x81) := by
  obtain ⟨a, x, y, pc, sp, negative, overflow, reserved, breakMark, decimalMode, interruptDisable,
    zero, carry⟩ := registers
  obtain rfl : pc = 0x8000 := hpc
  cases carry
  · cbv
  · cbv

/-- The others shift the byte twice, bring the sum back to the accumulator, and load the byte. -/
theorem turns_demo_rest {carry : Bool} (hpc : registers.pc = 0x8008)
    (ha : registers.a = demoSum carry) :
    turns rule 8 registers (demoMemory.write 0x0200 0x81) =
      some ({ registers with x := 0x04, pc := 0x8018, status := demoStatus registers.status },
        demoMemory.write 0x0200 0x04) := by
  obtain ⟨a, x, y, pc, sp, status⟩ := registers
  obtain rfl : pc = 0x8008 := hpc
  obtain rfl : a = demoSum carry := ha
  cases carry
  · cbv
  · cbv

theorem turns_demo (hpc : registers.pc = 0x8000) :
    turns rule 11 registers demoMemory =
      some ({ registers with
          a := demoSum registers.status.carry
          x := 0x04
          pc := 0x8018
          status := demoStatus registers.status },
        demoMemory.write 0x0200 0x04) := by
  rw [turns_add rule 3 8, turns_demo_sum rule hpc, Option.bind_some]
  exact turns_demo_rest rule rfl rfl

end Turns

/-- What a machine is left with by the demo, if it was started with a carry flag. -/
structure HasRunDemo (machine : Machine) (carry : Bool) : Prop where
  state : machine.state = .halted
  steps : machine.steps = 12
  pc : machine.registers.pc = 0x8000 + UInt16.ofNat demoProgram.length
  a : machine.registers.a = demoSum carry
  x : machine.registers.x = 0x04
  carry_eq : machine.registers.status.carry = true
  overflow : machine.registers.status.overflow = false
  zero : machine.registers.status.zero = false
  negative : machine.registers.status.negative = false
  memory : machine.memory = demoMemory.write 0x0200 0x04

/-- A machine that was reset to the beginning of the demo runs to the break at its end. -/
theorem exists_stopsAfter_demo {machine : Machine} (hrunning : machine.state = .running)
    (hsteps : machine.steps = 0) (hpc : machine.registers.pc = 0x8000)
    (hmemory : machine.memory = demoMemory) :
    ∃ final, machine.StopsAfter 11 .halted final ∧
      final.HasRunDemo machine.registers.status.carry := by
  have hturns := turns_demo machine.settings.indirect hpc
  rw [← hmemory] at hturns
  obtain ⟨hcompletes, hregisters, hleft⟩ := completes_of_turns hrunning hturns
  have hbreak : decode ((machine.after 11).memory.read (machine.after 11).registers.pc) =
      some .brk := by
    rw [hregisters, hleft, hmemory]
    change decode ((demoMemory.write 0x0200 0x04).read 0x8018) = some .brk
    decide +kernel
  obtain ⟨final, hhalts, hstate, hkept, hlast⟩ :=
    step_brk (hcompletes.running hrunning) hbreak
  rw [hregisters] at hlast
  refine ⟨final, ⟨hcompletes, hhalts, by decide⟩, ?_⟩
  constructor
  case state => exact hstate
  case steps =>
    rw [steps_of_step hhalts, hcompletes.steps hrunning, hsteps]
    rfl
  case memory => rw [hkept, hleft, hmemory]
  case pc | a | x | carry_eq | overflow | zero | negative =>
    rw [hlast]
    rfl

end Machine

namespace Session

/-- The demo in the monitor. Behind the command `demo` the command `g` completes eleven instructions
and halts, if no breakpoints are set. It leaves what the demo computes with the carry flag that was
there before; the other registers and flags, the memory, the settings and the trace do not
matter. -/
theorem demo_run {session : Session} (hnone : session.breakpoints = Breakpoints.empty)
    (files later : Files) {demo go : Text} (hdemo : Command.parse demo = .ok .demo)
    (hgo : Command.parse go = .ok .go) :
    ∃ loaded final, (session.answer files demo).2 = some loaded ∧
      loaded.machine.runUntil loaded.breakpoints watchdogLimit =
        (⟨.halted, 11, none⟩, final.machine) ∧
      loaded.answer later go = (Answer.ofReplies [.registers final.machine] ++ prompt, some final) ∧
      final.machine.HasRunDemo session.machine.registers.status.carry := by
  generalize hmachine : (({ session.machine with memory := Memory.blank } : Machine).withProgram
    demoProgram Memory.programOrigin).reset = machine
  have hloaded : (session.answer files demo).2 = some { session with machine } := by
    rw [answer_of_parse hdemo (by simp), respond, loadDemo_eq, ← hmachine]
  have hpc : machine.registers.pc = 0x8000 := by
    rw [← hmachine]
    exact Machine.pc_reset_withProgram _ _ _
  have hcarry : machine.registers.status.carry = session.machine.registers.status.carry := by
    rw [← hmachine]
    rfl
  obtain ⟨final, hstops, hfinal⟩ := Machine.exists_stopsAfter_demo
    (by rw [← hmachine]; rfl) (by rw [← hmachine]; rfl) hpc (by rw [← hmachine]; rfl)
  have hrun : machine.runUntil session.breakpoints watchdogLimit =
      (⟨.halted, 11, none⟩, final) := by
    rw [hnone]
    exact Machine.runUntil_of_stopsAfter hstops (by decide)
  refine ⟨_, { session with machine := final }, hloaded, hrun, ?_, hcarry ▸ hfinal⟩
  rw [answer_of_parse hgo (by simp), respond, run, hrun]
  rfl

/-- A session that traces by the legacy rule and has come to a fault, with the carry flag set. -/
theorem demo_run_of_carry :
    let session : Session :=
      { machine :=
          { registers := { a := 0x7F, y := 0x10, pc := 0x1234, status := { carry := true } }
            state := .faulted
            settings := { indirect := .legacy, trace := true } } }
    let files : Files := fun _ ↦ none
    session.breakpoints = Breakpoints.empty ∧ Command.parse "demo".toList = .ok .demo ∧
      Command.parse "G".toList = .ok .go ∧
      ∃ loaded final, (session.answer files "demo".toList).2 = some loaded ∧
        loaded.machine.runUntil loaded.breakpoints watchdogLimit =
          (⟨.halted, 11, none⟩, final.machine) ∧
        loaded.answer files "G".toList =
          (Answer.ofReplies [.registers final.machine] ++ prompt, some final) ∧
        final.machine.HasRunDemo true ∧ final.machine.registers.a = 0x03 := by
  intro session files
  have hdemo : Command.parse "demo".toList = .ok .demo := by decide
  have hgo : Command.parse "G".toList = .ok .go := by decide
  obtain ⟨loaded, final, hloaded, hrun, hanswer, hfinal⟩ :=
    @demo_run session rfl files files _ _ hdemo hgo
  exact ⟨rfl, hdemo, hgo, loaded, final, hloaded, hrun, hanswer, hfinal, hfinal.a⟩

/-- A new session that runs the demo twice. No breakpoints are set, but the two runs do not leave
the same accumulator. -/
theorem second_demo_run :
    let files : Files := fun _ ↦ none
    let session : Session :=
      { machine := (({} : Machine).withProgram demoProgram Memory.programOrigin).reset }
    let demo := ["demo", "g"].map fun line ↦ (files, line.toList)
    CommandLine.start files [] = .monitor session ∧
      (session.afterLines demo).map (·.breakpoints.addresses) = some [] ∧
      (session.afterLines demo).map (·.machine.registers.a) = some 0x02 ∧
      (session.afterLines (demo ++ demo)).map (·.machine.registers.a) = some 0x03 :=
  ⟨rfl, by decide +kernel, by decide +kernel, by decide +kernel⟩

end Session

end Mos6502
