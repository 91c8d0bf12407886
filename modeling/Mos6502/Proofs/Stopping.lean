import Mos6502.Proofs.Ending

/-!
Where a run with breakpoints and a limit stops. `Machine.RunEnds` lists the ways in which such a
run of a running machine can end: it comes to its limit, to a breakpoint behind its first
instruction, or to a call of `step` that does not complete; and it has passed no breakpoint before.
Each turn of the loop keeps that what was completed so far passed no breakpoint, and
`Machine.runUntilFrom_ends` takes this to the end of the run.

`Machine.runUntil_endsInPlace` says what that means for the report and for the machine that is left,
also of a machine that does not run.
-/

set_option autoImplicit false
set_option relaxedAutoImplicit false

namespace Mos6502

namespace Machine

/-! ### The ways in which a run ends -/

/-- Whether no breakpoint stands in front of the first instructions, but for the very first one. -/
def Passes (machine : Machine) (breakpoints : Breakpoints) (count : Nat) : Prop :=
  ∀ call, 0 < call → call < count →
    breakpoints.contains (machine.after call).registers.pc = false

theorem Passes.succ {machine : Machine} {breakpoints : Breakpoints} {count : Nat}
    (hpasses : machine.Passes breakpoints count)
    (hnext : ¬(count ≠ 0 ∧ breakpoints.contains (machine.after count).registers.pc)) :
    machine.Passes breakpoints (count + 1) := by
  intro call hpositive hcall
  rcases Nat.lt_succ_iff_lt_or_eq.mp hcall with hearlier | rfl
  · exact hpasses call hpositive hearlier
  · simpa [Nat.ne_of_gt hpositive] using hnext

/-- The ways in which a run of a running machine ends, with the report and the machine left. -/
inductive RunEnds (machine : Machine) (breakpoints : Breakpoints) (limit : Nat) :
    RunReport → Machine → Prop
  | limit (hpasses : machine.Passes breakpoints limit)
      (hcompletes : machine.Completes limit (machine.after limit)) :
      RunEnds machine breakpoints limit ⟨.limit, limit, none⟩ (machine.after limit)
  | breakpoint {count : Nat} (hpositive : 0 < count) (hcount : count < limit)
      (hpasses : machine.Passes breakpoints count)
      (hcompletes : machine.Completes count (machine.after count))
      (hcontains : breakpoints.contains (machine.after count).registers.pc = true) :
      RunEnds machine breakpoints limit ⟨.breakpoint, count, none⟩ (machine.after count)
  | stop {count : Nat} {outcome : Outcome} {final : Machine} (hcount : count < limit)
      (hpasses : machine.Passes breakpoints (count + 1))
      (hstops : machine.StopsAfter count outcome final) :
      RunEnds machine breakpoints limit ⟨outcome.state.stopReason, count, outcome.fault?⟩ final

/-- The rest of a run ends in one of the ways if all so far completed and passed no breakpoint. -/
theorem runUntilFrom_ends {machine : Machine} {breakpoints : Breakpoints}
    (hrunning : machine.state = .running) (remaining : Nat) {executed : Nat}
    (hpasses : machine.Passes breakpoints executed)
    (hcompletes : machine.Completes executed (machine.after executed)) :
    ∃ report final,
      (machine.after executed).runUntilFrom breakpoints executed remaining = (report, final) ∧
        machine.RunEnds breakpoints (executed + remaining) report final := by
  have hnow := hcompletes.running hrunning
  -- The machine at the beginning stays fixed; the induction goes over what is left of the limit.
  induction remaining generalizing executed with
  | zero =>
    refine ⟨_, _, ?_, .limit hpasses hcompletes⟩
    rw [runUntilFrom, hnow]
    rfl
  | succ remaining ih =>
    unfold runUntilFrom
    rw [if_neg (not_not_intro hnow)]
    by_cases hbreak :
        executed ≠ 0 ∧ breakpoints.contains (machine.after executed).registers.pc
    · rw [if_pos hbreak]
      exact ⟨_, _, rfl,
        .breakpoint (Nat.pos_of_ne_zero hbreak.1) (by omega) hpasses hcompletes hbreak.2⟩
    · rw [if_neg hbreak]
      have hpassesNext := hpasses.succ hbreak
      obtain ⟨outcome, next, hstep⟩ := exists_step_of_running hnow
      rw [hstep]
      by_cases houtcome : outcome = .completed
      · subst houtcome
        have hafter : machine.after (executed + 1) = next := by rw [after_succ, hstep]
        have hnext := hcompletes.trans (.single hstep)
        rw [← hafter] at hnext ⊢
        rw [Nat.add_comm remaining, ← Nat.add_assoc]
        exact ih hpassesNext hnext (hnext.running hrunning)
      · have hstops : machine.StopsAfter executed outcome next := ⟨hcompletes, hstep, houtcome⟩
        refine ⟨_, _, ?_, .stop (by omega) hpassesNext hstops⟩
        cases outcome with
        | completed => exact absurd rfl houtcome
        | halted => rw [← hstops.state_eq]; rfl
        | unsupported fault => rw [← hstops.state_eq]; rfl

/-- A run of a running machine ends in one of the ways. -/
theorem runUntil_ends {machine : Machine} (hrunning : machine.state = .running)
    (breakpoints : Breakpoints) (limit : Nat) :
    ∃ report final, machine.runUntil breakpoints limit = (report, final) ∧
      machine.RunEnds breakpoints limit report final := by
  have hnone : machine.Passes breakpoints 0 := fun call _ hcall ↦
    absurd hcall (Nat.not_lt_zero call)
  have hends := runUntilFrom_ends hrunning limit hnone (.refl machine)
  rwa [Nat.zero_add] at hends

/-- A machine that does not run stays as it is, whatever it completed before. -/
theorem runUntilFrom_of_stopped {machine : Machine} (hstopped : machine.state ≠ .running)
    (breakpoints : Breakpoints) (executed remaining : Nat) :
    machine.runUntilFrom breakpoints executed remaining =
      (⟨machine.state.stopReason, executed, none⟩, machine) := by
  cases remaining with
  | zero => rfl
  | succ remaining => rw [runUntilFrom, if_pos hstopped]

theorem runUntil_of_stopped {machine : Machine} (hstopped : machine.state ≠ .running)
    (breakpoints : Breakpoints) (limit : Nat) :
    machine.runUntil breakpoints limit = (⟨machine.state.stopReason, 0, none⟩, machine) :=
  runUntilFrom_of_stopped hstopped breakpoints 0 limit

/-- A run leaves the machine after some number of calls. -/
theorem exists_runUntil_eq_after (machine : Machine) (breakpoints : Breakpoints) (limit : Nat) :
    ∃ count, (machine.runUntil breakpoints limit).2 = machine.after count := by
  by_cases hrunning : machine.state = .running
  · obtain ⟨report, final, hrun, hends⟩ := runUntil_ends hrunning breakpoints limit
    rw [hrun]
    cases hends with
    | limit => exact ⟨limit, rfl⟩
    | breakpoint => exact ⟨_, rfl⟩
    | stop hcount hpasses hstops => exact ⟨_, hstops.after_eq.symm⟩
  · rw [runUntil_of_stopped hrunning]
    exact ⟨0, rfl⟩

/-! ### The report and the machine left -/

/-- Whether a report and a machine are those of a run with breakpoints and a limit that stopped in
its place. The calls are those of `step`, where a fault is an outcome like others. -/
structure EndsInPlace (machine : Machine) (breakpoints : Breakpoints) (limit : Nat)
    (report : RunReport) (final : Machine) : Prop where
  executed_le : report.executed ≤ limit
  /-- The instructions that the report counts were completed. -/
  completed : ∀ call < report.executed, (machine.after call).step.1 = some .completed
  running : machine.state = .running →
    ∀ call ≤ report.executed, (machine.after call).state = .running
  passed : ∀ call, 0 < call → call < report.executed →
    breakpoints.contains (machine.after call).registers.pc = false
  /-- Nothing else was fetched if the run came to its limit or to a breakpoint, or never began. -/
  paused : report.reason = .limit ∨ report.reason = .breakpoint ∨ machine.state ≠ .running →
    final = machine.after report.executed ∧
      final.steps = machine.steps + UInt64.ofNat report.executed
  /-- Otherwise there was one more call, which fetched what stops a run. -/
  stopped : report.reason ≠ .limit → report.reason ≠ .breakpoint → machine.state = .running →
    final = machine.after (report.executed + 1) ∧ (machine.after report.executed).StopsAt ∧
      final.steps = machine.steps + UInt64.ofNat report.executed + 1
  halted_iff : report.reason = .halted ↔ final.state = .halted
  faulted_iff : report.reason = .faulted ↔ final.state = .faulted
  limit_iff : report.reason = .limit ↔ final.state = .running ∧ report.executed = limit
  breakpoint_iff : report.reason = .breakpoint ↔
    final.state = .running ∧ 0 < report.executed ∧ report.executed < limit ∧
      breakpoints.contains final.registers.pc = true

namespace EndsInPlace

variable {machine final : Machine} {breakpoints : Breakpoints} {limit count : Nat}

/-- A machine that does not run is left as it is, with its state as the reason. -/
theorem of_stopped (hstopped : machine.state ≠ .running) :
    machine.EndsInPlace breakpoints limit ⟨machine.state.stopReason, 0, none⟩ machine := by
  constructor
  · exact Nat.zero_le limit
  · intro call hcall
    exact absurd hcall (Nat.not_lt_zero call)
  · intro hrunning
    exact absurd hrunning hstopped
  · intro call _ hcall
    exact absurd hcall (Nat.not_lt_zero call)
  · intro _
    exact ⟨rfl, (UInt64.add_zero machine.steps).symm⟩
  · intro _ _ hrunning
    exact absurd hrunning hstopped
  all_goals
    revert hstopped
    cases machine.state <;> simp [RunState.stopReason]

/-- A run that came to its limit or to a breakpoint is left in front of an instruction. -/
theorem of_completes {reason : StopReason} (hrunning : machine.state = .running)
    (hcount : count ≤ limit) (hpasses : machine.Passes breakpoints count)
    (hcompletes : machine.Completes count (machine.after count))
    (hreason : reason = .limit ∧ count = limit ∨
      reason = .breakpoint ∧ 0 < count ∧ count < limit ∧
        breakpoints.contains (machine.after count).registers.pc = true) :
    machine.EndsInPlace breakpoints limit ⟨reason, count, none⟩ (machine.after count) := by
  have hlast := hcompletes.running hrunning
  have hpaused : reason = .limit ∨ reason = .breakpoint := hreason.imp And.left And.left
  constructor
  · exact hcount
  · exact fun call hcall ↦ hcompletes.outcome hcall
  · exact fun _ call hcall ↦ running_of_le hcall hlast
  · exact hpasses
  · exact fun _ ↦ ⟨rfl, hcompletes.steps hrunning⟩
  · intro hlimit hbreakpoint
    exact (hpaused.elim hlimit hbreakpoint).elim
  all_goals
    rw [hlast]
    rcases hreason with ⟨rfl, rfl⟩ | ⟨rfl, hpositive, hbefore, hcontains⟩
  · simp
  · simp
  · simp
  · simp
  · simp
  · simp [Nat.ne_of_lt hbefore]
  · simp
  · simp [hpositive, hbefore, hcontains]

/-- A run that came to a call that does not complete is left behind it. -/
theorem of_stopsAfter {outcome : Outcome} (hcount : count < limit)
    (hpasses : machine.Passes breakpoints (count + 1))
    (hstops : machine.StopsAfter count outcome final) :
    machine.EndsInPlace breakpoints limit
      ⟨outcome.state.stopReason, count, outcome.fault?⟩ final := by
  have hrunning := hstops.running
  have hlast := running_of_step hstops.step
  constructor
  · exact Nat.le_of_lt hcount
  · exact fun call hcall ↦ hstops.completes.outcome hcall
  · exact fun _ call hcall ↦ running_of_le hcall hlast
  · exact fun call hpositive hcall ↦ hpasses call hpositive (Nat.lt_succ_of_lt hcall)
  · intro hpaused
    have hincomplete := hstops.incomplete
    cases outcome <;> simp_all [Outcome.state, RunState.stopReason]
  · intro _ _ _
    refine ⟨hstops.after_eq.symm, (stopsAt_iff hstops.step).mpr hstops.incomplete, ?_⟩
    rw [steps_of_step hstops.step, hstops.completes.steps hrunning]
  all_goals
    rw [hstops.state_eq]
    have hincomplete := hstops.incomplete
    cases outcome <;> simp_all [Outcome.state, RunState.stopReason]

end EndsInPlace

/-- A run with breakpoints and a limit stops in its place: at its limit, in front of the first
breakpoint behind its first instruction, or behind the break or the fault that it comes to before.
The report tells which, and how many instructions were completed. -/
theorem runUntil_endsInPlace (machine : Machine) (breakpoints : Breakpoints) (limit : Nat) :
    machine.EndsInPlace breakpoints limit (machine.runUntil breakpoints limit).1
      (machine.runUntil breakpoints limit).2 := by
  by_cases hrunning : machine.state = .running
  · obtain ⟨report, final, hresult, hends⟩ := runUntil_ends hrunning breakpoints limit
    rw [hresult]
    cases hends with
    | limit hpasses hcompletes =>
      exact .of_completes hrunning (Nat.le_refl limit) hpasses hcompletes (.inl ⟨rfl, rfl⟩)
    | breakpoint hpositive hcount hpasses hcompletes hcontains =>
      exact .of_completes hrunning (Nat.le_of_lt hcount) hpasses hcompletes
        (.inr ⟨rfl, hpositive, hcount, hcontains⟩)
    | stop hcount hpasses hstops => exact .of_stopsAfter hcount hpasses hstops
  · rw [runUntil_of_stopped hrunning]
    exact .of_stopped hrunning

end Machine

end Mos6502
