import Mos6502.Proofs.Completion

/-!
How runs end by themselves. A running machine either completes a given number of instructions, or
comes before that to a call of `step` that does not complete (`Machine.completes_or_stopsAfter`).
`Machine.StopsAfter` tells of such a call: the number of instructions in front of it, its outcome
and the machine that it leaves. There is at most one (`Machine.StopsAfter.unique`), and it is found
at a break or at an opcode that stands for no instruction (`Machine.stopsAt_iff`).

`Machine.run_of_stopsAfter` and `Machine.run_of_completes_budget` give the result of a run in terms
of the two.
-/

set_option autoImplicit false
set_option relaxedAutoImplicit false

namespace Mos6502

/-- The result of a run that ends with an outcome behind a number of completed instructions. -/
def Outcome.result (count : Nat) : Outcome → Except Fault UInt64
  | .unsupported fault => .error fault
  | .completed | .halted => .ok (UInt64.ofNat count)

namespace Machine

/-! ### One call -/

section Step

variable {machine next : Machine} {outcome : Outcome}
  (hstep : machine.step = (some outcome, next))
include hstep

theorem running_of_step : machine.state = .running := by
  refine Decidable.byContradiction fun hstopped ↦ ?_
  rw [step_of_stopped machine hstopped] at hstep
  cases hstep

theorem state_of_step : next.state = outcome.state := by
  have hrunning := running_of_step hstep
  have houtcome := outcome_step hrunning
  have hstate := state_step hrunning
  rw [hstep] at houtcome hstate
  rw [hstate, ← Option.some.inj houtcome]

theorem steps_of_step : next.steps = machine.steps + 1 := by
  have hsteps := steps_step (running_of_step hstep)
  rwa [hstep] at hsteps

end Step

/-- A call that finds the machine running has an outcome. -/
theorem exists_step_of_running {machine : Machine} (hrunning : machine.state = .running) :
    ∃ outcome next, machine.step = (some outcome, next) :=
  ⟨_, _, Prod.ext (outcome_step hrunning) rfl⟩

theorem state_eq_running_iff (outcome : Outcome) :
    outcome.state = .running ↔ outcome = .completed := by
  cases outcome <;> simp [Outcome.state]

/-- Whether the opcode at the program counter is a break or stands for no instruction. -/
def StopsAt (machine : Machine) : Prop :=
  let opcode := machine.memory.read machine.registers.pc
  decode opcode = some .brk ∨ decode opcode = none

/-- A call that finds the machine running completes unless it fetches a break or an opcode that
stands for no instruction. -/
theorem stopsAt_iff {machine next : Machine} {outcome : Outcome}
    (hstep : machine.step = (some outcome, next)) : machine.StopsAt ↔ outcome ≠ .completed := by
  have hrunning := running_of_step hstep
  cases hdecode : decode (machine.memory.read machine.registers.pc) with
  | none =>
    have houtcome := outcome_step hrunning
    rw [run_cycle_of_unsupported hdecode, hstep] at houtcome
    rw [Option.some.inj houtcome]
    simp [StopsAt, hdecode]
  | some instruction =>
    have houtcome := outcome_step_of_decode hrunning hdecode
    rw [hstep] at houtcome
    rw [Option.some.inj houtcome]
    cases instruction <;> simp [StopsAt, hdecode, Instruction.outcome]

/-! ### Completed instructions as calls -/

theorem after_succ_eq_after_step (machine : Machine) (count : Nat) :
    machine.after (count + 1) = machine.step.2.after count := by
  rw [Nat.add_comm, after_add]
  rfl

namespace Completes

variable {machine final : Machine} {count : Nat} (hcompletes : machine.Completes count final)
include hcompletes

theorem after_eq : machine.after count = final := by
  induction hcompletes with
  | refl => rfl
  | @head machine next final count hstep _ ih => rw [after_succ_eq_after_step, hstep, ih]

theorem outcome {call : Nat} (hcall : call < count) :
    (machine.after call).step.1 = some .completed := by
  induction hcompletes generalizing call with
  | refl => omega
  | @head machine next final count hstep _ ih =>
    cases call with
    | zero => rw [after_zero, hstep]
    | succ call =>
      rw [after_succ_eq_after_step, hstep]
      exact ih (Nat.lt_of_succ_lt_succ hcall)

theorem running (hrunning : machine.state = .running) : final.state = .running := by
  induction hcompletes with
  | refl => exact hrunning
  | head hstep _ ih => exact ih (state_of_step hstep)

/-- Each completed instruction counts one step. -/
theorem steps (hrunning : machine.state = .running) :
    final.steps = machine.steps + UInt64.ofNat count := by
  have hafter := hcompletes.after_eq
  have hcalls := machine.steps_after count
  rw [hafter, runningCalls_of_running (by rw [hafter]; exact hcompletes.running hrunning)] at hcalls
  exact hcalls

end Completes

/-! ### The call that does not complete -/

/-- Whether a machine completes a number of instructions, and the next call of `step` has another
outcome and leaves another machine. -/
structure StopsAfter (machine : Machine) (count : Nat) (outcome : Outcome) (final : Machine) :
    Prop where
  completes : machine.Completes count (machine.after count)
  step : (machine.after count).step = (some outcome, final)
  incomplete : outcome ≠ .completed

/-- A running machine completes a number of instructions, or stops before that. -/
theorem completes_or_stopsAfter {machine : Machine} (hrunning : machine.state = .running)
    (limit : Nat) :
    machine.Completes limit (machine.after limit) ∨
      ∃ count < limit, ∃ outcome final, machine.StopsAfter count outcome final := by
  induction limit with
  | zero => exact .inl (.refl machine)
  | succ limit ih =>
    rcases ih with hcompletes | ⟨count, hcount, hstops⟩
    · obtain ⟨outcome, next, hstep⟩ := exists_step_of_running (hcompletes.running hrunning)
      by_cases houtcome : outcome = .completed
      · subst houtcome
        rw [after_succ, hstep]
        exact .inl (hcompletes.trans (.single hstep))
      · exact .inr ⟨limit, Nat.lt_succ_self limit, outcome, next, hcompletes, hstep, houtcome⟩
    · exact .inr ⟨count, Nat.lt_succ_of_lt hcount, hstops⟩

/-- A machine stops where the one does that its completed instructions lead to. -/
theorem Completes.stopsAfter {machine middle final : Machine} {first second : Nat}
    {outcome : Outcome} (hcompletes : machine.Completes first middle)
    (hstops : middle.StopsAfter second outcome final) :
    machine.StopsAfter (first + second) outcome final := by
  have hafter : machine.after (first + second) = middle.after second := by
    rw [after_add, hcompletes.after_eq]
  constructor
  · rw [hafter]
    exact hcompletes.trans hstops.completes
  · rw [hafter]
    exact hstops.step
  · exact hstops.incomplete

namespace StopsAfter

variable {machine final : Machine} {count : Nat} {outcome : Outcome}
  (hstops : machine.StopsAfter count outcome final)
include hstops

theorem running : machine.state = .running :=
  running_of_le (Nat.zero_le count) (running_of_step hstops.step)

theorem state_eq : final.state = outcome.state := state_of_step hstops.step

theorem stopped : final.state ≠ .running := fun hrunning ↦
  hstops.incomplete ((state_eq_running_iff outcome).mp (hstops.state_eq.symm.trans hrunning))

theorem after_eq : machine.after (count + 1) = final := by
  rw [after_succ, hstops.step]

/-- The calls that complete are those in front of the one that does not. -/
theorem outcome_eq_completed_iff (call : Nat) :
    (machine.after call).step.1 = some .completed ↔ call < count := by
  constructor
  · intro hcall
    rcases Nat.lt_trichotomy call count with hbefore | rfl | hbehind
    · exact hbefore
    · rw [hstops.step] at hcall
      exact absurd (Option.some.inj hcall) hstops.incomplete
    · obtain ⟨more, rfl⟩ := Nat.exists_eq_add_of_le (Nat.succ_le_of_lt hbehind)
      rw [Nat.succ_eq_add_one, after_add, hstops.after_eq, after_of_stopped hstops.stopped,
        step_of_stopped final hstops.stopped] at hcall
      cases hcall
  · exact hstops.completes.outcome

/-- More instructions than those do not complete. -/
theorem le_of_completes {limit : Nat} {last : Machine} (hcompletes : machine.Completes limit last) :
    limit ≤ count := by
  refine Nat.le_of_not_lt fun hmore ↦ ?_
  have hcall := hcompletes.outcome hmore
  exact absurd ((hstops.outcome_eq_completed_iff count).mp hcall) (Nat.lt_irrefl count)

theorem completes_of_le {limit : Nat} (hlimit : limit ≤ count) :
    machine.Completes limit (machine.after limit) := by
  rcases completes_or_stopsAfter hstops.running limit with
    hcompletes | ⟨early, hearly, _, _, hother⟩
  · exact hcompletes
  · exact absurd (hother.le_of_completes hstops.completes)
      (Nat.not_le_of_lt (Nat.lt_of_lt_of_le hearly hlimit))

/-- A machine stops in one way only. -/
theorem unique {other : Nat} {outcome' : Outcome} {final' : Machine}
    (hother : machine.StopsAfter other outcome' final') :
    other = count ∧ outcome' = outcome ∧ final' = final := by
  have hcount : other = count := Nat.le_antisymm (hstops.le_of_completes hother.completes)
    (hother.le_of_completes hstops.completes)
  subst hcount
  have hstep := hother.step.symm.trans hstops.step
  exact ⟨rfl, Option.some.inj (congrArg Prod.fst hstep), congrArg Prod.snd hstep⟩

end StopsAfter

/-! ### Runs without a limit -/

section Run

variable {machine final : Machine} {count budget : Nat} {outcome : Outcome}

/-- A run that stops has a result if its budget allows for the call that does not complete. -/
theorem run_of_stopsAfter (hstops : machine.StopsAfter count outcome final)
    (hbudget : count < budget) : machine.run budget = some (outcome.result count, final) := by
  obtain ⟨more, rfl⟩ := Nat.exists_eq_add_of_lt hbudget
  rw [run, Nat.add_assoc, hstops.completes.runFrom_eq, UInt64.zero_add, runFrom, hstops.step]
  cases outcome with
  | completed => exact absurd rfl hstops.incomplete
  | halted => rfl
  | unsupported fault => rfl

/-- A run has no result if all that its budget allows for completes. -/
theorem run_of_completes_budget (hcompletes : machine.Completes budget final) :
    machine.run budget = none :=
  hcompletes.runFrom_eq 0 0

/-- A machine that does not run has completed nothing. -/
theorem run_of_stopped (hstopped : machine.state ≠ .running) (budget : Nat) :
    machine.run (budget + 1) = some (.ok 0, machine) := by
  rw [run, runFrom, step_of_stopped machine hstopped]

/-- A run of a running machine has a result exactly if the machine stops within the budget. -/
theorem run_eq_some_iff (hrunning : machine.state = .running) {result : Except Fault UInt64} :
    machine.run budget = some (result, final) ↔
      ∃ count < budget, ∃ outcome, machine.StopsAfter count outcome final ∧
        result = outcome.result count := by
  constructor
  · intro hrun
    rcases completes_or_stopsAfter hrunning budget with
      hcompletes | ⟨count, hcount, outcome, last, hstops⟩
    · rw [run_of_completes_budget hcompletes] at hrun
      cases hrun
    · rw [run_of_stopsAfter hstops hcount] at hrun
      cases hrun
      exact ⟨count, hcount, outcome, hstops, rfl⟩
  · rintro ⟨count, hcount, outcome, hstops, rfl⟩
    exact run_of_stopsAfter hstops hcount

/-- A run that has a result leaves the machine after some number of calls. -/
theorem exists_run_eq_after {result : Except Fault UInt64}
    (hrun : machine.run budget = some (result, final)) : ∃ count, final = machine.after count := by
  by_cases hrunning : machine.state = .running
  · obtain ⟨count, -, outcome, hstops, -⟩ := (run_eq_some_iff hrunning).mp hrun
    exact ⟨count + 1, hstops.after_eq.symm⟩
  · cases budget with
    | zero => cases hrun
    | succ budget =>
      rw [run_of_stopped hrunning] at hrun
      cases hrun
      exact ⟨0, rfl⟩

end Run

end Machine

end Mos6502
