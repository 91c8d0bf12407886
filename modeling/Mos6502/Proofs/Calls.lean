import Mos6502.Machine

/-!
Calls of `Machine.step` in a row, whatever their outcomes. `Machine.after` is the machine after a
number of calls, and `Machine.runningCalls` counts the calls that found it running.

A machine that has stopped stays as it is, so the calls that find it running come first
(`Machine.running_after_iff`), and each of them counts one step (`Machine.steps_after`).

Two machines may differ in their settings, their timelines and what is pending, and still be the
same to a program (`Machine.AgreeBeyondSettings`). A call keeps this if the processor makes the same
turn on both (`Machine.AgreeBeyondSettings.step`).
-/

set_option autoImplicit false
set_option relaxedAutoImplicit false

namespace Mos6502

namespace Machine

/-! ### One call -/

/-- The turn of the processor that the next call of `step` makes if the machine runs. -/
def cycle (machine : Machine) : BusProgram (Outcome × Registers) :=
  instructionCycle machine.settings.indirect machine.registers

section Running

variable {machine : Machine} (hrunning : machine.state = .running)
include hrunning

theorem outcome_step : machine.step.1 = some (machine.cycle.run machine.memory).1.1 := by
  rw [step_of_running machine hrunning]
  rfl

theorem registers_step : machine.step.2.registers = (machine.cycle.run machine.memory).1.2 := by
  rw [step_of_running machine hrunning]
  rfl

theorem memory_step : machine.step.2.memory = (machine.cycle.run machine.memory).2 := by
  rw [step_of_running machine hrunning]
  rfl

theorem state_step : machine.step.2.state = (machine.cycle.run machine.memory).1.1.state := by
  rw [step_of_running machine hrunning]
  rfl

theorem steps_step : machine.step.2.steps = machine.steps + 1 := by
  rw [step_of_running machine hrunning]

theorem pending_step : machine.step.2.pending = [] := by
  rw [step_of_running machine hrunning]

end Running

/-- No call changes the settings. -/
@[simp] theorem settings_step (machine : Machine) : machine.step.2.settings = machine.settings := by
  by_cases hrunning : machine.state = .running
  · rw [step_of_running machine hrunning]
  · rw [step_of_stopped machine hrunning]

/-! ### One call on two machines -/

/-- Whether two machines agree in all but their settings, their timelines and what is pending in
front of the next opcode. -/
structure AgreeBeyondSettings (first second : Machine) : Prop where
  registers : second.registers = first.registers
  memory : second.memory = first.memory
  state : second.state = first.state
  steps : second.steps = first.steps

/-- A call has the same outcome on both machines, and leaves them in agreement, if the processor
makes the same turn on both. -/
theorem AgreeBeyondSettings.step {first second : Machine}
    (hagree : first.AgreeBeyondSettings second)
    (hturn : first.state = .running →
      second.cycle.run second.memory = first.cycle.run first.memory) :
    second.step.1 = first.step.1 ∧ first.step.2.AgreeBeyondSettings second.step.2 := by
  by_cases hrunning : first.state = .running
  · have hother : second.state = .running := hagree.state.trans hrunning
    have hsame := hturn hrunning
    refine ⟨by rw [outcome_step hother, outcome_step hrunning, hsame], ?_⟩
    exact {
      registers := by rw [registers_step hother, registers_step hrunning, hsame]
      memory := by rw [memory_step hother, memory_step hrunning, hsame]
      state := by rw [state_step hother, state_step hrunning, hsame]
      steps := by rw [steps_step hother, steps_step hrunning, hagree.steps] }
  · have hother : second.state ≠ .running := by
      rw [hagree.state]
      exact hrunning
    rw [step_of_stopped first hrunning, step_of_stopped second hother]
    exact ⟨rfl, hagree⟩

/-! ### Calls in a row -/

/-- The machine after a number of calls of `step`. -/
def after (machine : Machine) : Nat → Machine
  | 0 => machine
  | count + 1 => (machine.after count).step.2

/-- How many of the first calls of `step` find the machine running. -/
def runningCalls (machine : Machine) : Nat → Nat
  | 0 => 0
  | count + 1 =>
      machine.runningCalls count + if (machine.after count).state = .running then 1 else 0

@[simp] theorem after_zero (machine : Machine) : machine.after 0 = machine := rfl

theorem after_succ (machine : Machine) (count : Nat) :
    machine.after (count + 1) = (machine.after count).step.2 := rfl

theorem after_add (machine : Machine) (first second : Nat) :
    machine.after (first + second) = (machine.after first).after second := by
  induction second with
  | zero => rfl
  | succ second ih => rw [← Nat.add_assoc, after_succ, after_succ, ih]

@[simp] theorem settings_after (machine : Machine) (count : Nat) :
    (machine.after count).settings = machine.settings := by
  induction count with
  | zero => rfl
  | succ count ih => rw [after_succ, settings_step, ih]

/-- A machine that does not run stays as it is through all calls. -/
theorem after_of_stopped {machine : Machine} (hstopped : machine.state ≠ .running) (count : Nat) :
    machine.after count = machine := by
  induction count with
  | zero => rfl
  | succ count ih => rw [after_succ, ih, step_of_stopped machine hstopped]

/-- A machine that runs after some calls ran before each of them. -/
theorem running_of_le {machine : Machine} {early late : Nat} (hle : early ≤ late)
    (hrunning : (machine.after late).state = .running) :
    (machine.after early).state = .running := by
  refine Decidable.byContradiction fun hstopped ↦ ?_
  obtain ⟨more, rfl⟩ := Nat.exists_eq_add_of_le hle
  rw [after_add, after_of_stopped hstopped] at hrunning
  exact hstopped hrunning

/-! ### Counting the calls that find the machine running -/

theorem runningCalls_le (machine : Machine) (count : Nat) : machine.runningCalls count ≤ count := by
  induction count with
  | zero => exact Nat.le_refl 0
  | succ count ih =>
    rw [runningCalls]
    split <;> omega

/-- All calls before one that finds the machine running find it running too. -/
theorem runningCalls_of_running {machine : Machine} {count : Nat}
    (hrunning : (machine.after count).state = .running) : machine.runningCalls count = count := by
  induction count with
  | zero => rfl
  | succ count ih =>
    have hearlier := running_of_le (Nat.le_succ count) hrunning
    rw [runningCalls, if_pos hearlier, ih hearlier]

/-- The calls that find the machine running are the first ones. -/
theorem running_after_iff (machine : Machine) {call count : Nat} (hcall : call < count) :
    (machine.after call).state = .running ↔ call < machine.runningCalls count := by
  induction count with
  | zero => omega
  | succ count ih =>
    rw [runningCalls]
    by_cases hlast : (machine.after count).state = .running
    · rw [if_pos hlast, runningCalls_of_running hlast]
      exact iff_of_true (running_of_le (Nat.le_of_lt_succ hcall) hlast) hcall
    · rw [if_neg hlast, Nat.add_zero]
      rcases Nat.lt_succ_iff_lt_or_eq.mp hcall with hearlier | rfl
      · exact ih hearlier
      · exact iff_of_false hlast (Nat.not_lt.mpr (machine.runningCalls_le call))

/-- A call that finds the machine running counts one step, and no other does. -/
theorem steps_after (machine : Machine) (count : Nat) :
    (machine.after count).steps = machine.steps + UInt64.ofNat (machine.runningCalls count) := by
  induction count with
  | zero => simp [runningCalls]
  | succ count ih =>
    rw [runningCalls, after_succ]
    split
    · next hrunning => rw [steps_step hrunning, ih, UInt64.ofNat_add, UInt64.add_assoc]; rfl
    · next hstopped => rw [step_of_stopped _ hstopped, ih, Nat.add_zero]

end Machine

end Mos6502
