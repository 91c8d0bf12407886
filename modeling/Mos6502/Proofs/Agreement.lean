import Mos6502.Monitor.Session
import Mos6502.Proofs.Odometer
import Mos6502.Proofs.Stopping

/-!
The two ways to run a machine agree. A run without a limit (`Machine.run`) returns the number of
completed instructions, fails with a fault, or goes on for ever: `Machine.Returns`, `Machine.Fails`
and `Machine.Diverges`. A run with a limit and no breakpoints comes to the same end if the limit is
larger than the number of completed instructions, and to its limit otherwise
(`Machine.runUntil_of_stopsAfter`, `Machine.runUntil_of_completes`).

`Machine.run_agrees_with_runUntil` puts this together for limits of 64 bits. The number that a run
without a limit returns has 64 bits too, and wraps around; hence that number does not tell how a run
with a limit ends (`Machine.not_countsAgree`), as there may be more completed instructions than any
limit allows for.
-/

set_option autoImplicit false
set_option relaxedAutoImplicit false

namespace Mos6502

namespace Machine

/-! ### Runs without a limit -/

/-- Whether the run of a machine returns, once it has completed a number of instructions. What it
returns is that number modulo 2^64. -/
def Returns (machine : Machine) (count : Nat) (final : Machine) : Prop :=
  (∃ budget, machine.run budget = some (.ok (UInt64.ofNat count), final)) ∧
    ∀ call, (machine.after call).step.1 = some .completed ↔ call < count

/-- Whether the run of a machine fails with a fault, once it has completed a number of
instructions. -/
def Fails (machine : Machine) (count : Nat) (fault : Fault) (final : Machine) : Prop :=
  (∃ budget, machine.run budget = some (.error fault, final)) ∧
    ∀ call, (machine.after call).step.1 = some .completed ↔ call < count

/-- Whether the run of a machine returns or fails, once it has completed a number of
instructions. -/
def EndsAfter (machine : Machine) (count : Nat) : Prop :=
  (∃ final, machine.Returns count final) ∨ ∃ fault final, machine.Fails count fault final

/-- Whether the run of a machine goes on for ever. -/
def Diverges (machine : Machine) : Prop := ∀ budget, machine.run budget = none

/-- The calls that complete tell where a machine stops. -/
theorem StopsAfter.eq_of_forall_iff {machine final : Machine} {count stop : Nat}
    {outcome : Outcome} (hstops : machine.StopsAfter stop outcome final)
    (hcompleted : ∀ call, (machine.after call).step.1 = some .completed ↔ call < count) :
    stop = count := by
  have hstop := hstops.outcome_eq_completed_iff
  have hbelow := (hstop count).symm.trans (hcompleted count)
  have habove := (hstop stop).symm.trans (hcompleted stop)
  omega

section Running

variable {machine : Machine} (hrunning : machine.state = .running)
include hrunning

/-- A running machine returns if it comes to a break. -/
theorem returns_iff {count : Nat} {final : Machine} :
    machine.Returns count final ↔ machine.StopsAfter count .halted final := by
  constructor
  · rintro ⟨⟨budget, hrun⟩, hcompleted⟩
    obtain ⟨stop, -, outcome, hstops, hresult⟩ := (run_eq_some_iff hrunning).mp hrun
    obtain rfl := hstops.eq_of_forall_iff hcompleted
    cases outcome with
    | completed => exact absurd rfl hstops.incomplete
    | halted => exact hstops
    | unsupported fault => cases hresult
  · intro hstops
    exact ⟨⟨count + 1, run_of_stopsAfter hstops (Nat.lt_succ_self count)⟩,
      hstops.outcome_eq_completed_iff⟩

/-- A running machine fails if it comes to an opcode that stands for no instruction. -/
theorem fails_iff {count : Nat} {fault : Fault} {final : Machine} :
    machine.Fails count fault final ↔ machine.StopsAfter count (.unsupported fault) final := by
  constructor
  · rintro ⟨⟨budget, hrun⟩, hcompleted⟩
    obtain ⟨stop, -, outcome, hstops, hresult⟩ := (run_eq_some_iff hrunning).mp hrun
    obtain rfl := hstops.eq_of_forall_iff hcompleted
    cases outcome with
    | completed => exact absurd rfl hstops.incomplete
    | halted => cases hresult
    | unsupported met =>
      cases hresult
      exact hstops
  · intro hstops
    exact ⟨⟨count + 1, run_of_stopsAfter hstops (Nat.lt_succ_self count)⟩,
      hstops.outcome_eq_completed_iff⟩

theorem endsAfter_iff {count : Nat} :
    machine.EndsAfter count ↔ ∃ outcome final, machine.StopsAfter count outcome final := by
  constructor
  · rintro (⟨final, hreturns⟩ | ⟨fault, final, hfails⟩)
    · exact ⟨.halted, final, (returns_iff hrunning).mp hreturns⟩
    · exact ⟨.unsupported fault, final, (fails_iff hrunning).mp hfails⟩
  · rintro ⟨outcome, final, hstops⟩
    cases outcome with
    | completed => exact absurd rfl hstops.incomplete
    | halted => exact .inl ⟨final, (returns_iff hrunning).mpr hstops⟩
    | unsupported fault => exact .inr ⟨fault, final, (fails_iff hrunning).mpr hstops⟩

/-- A running machine completes a number of instructions if it goes on for ever, or ends behind as
many or more. -/
theorem completes_iff {bound : Nat} :
    machine.Completes bound (machine.after bound) ↔
      machine.Diverges ∨ ∃ count, bound ≤ count ∧ machine.EndsAfter count := by
  constructor
  · intro hcompletes
    refine Classical.or_iff_not_imp_left.mpr fun hdiverges ↦ ?_
    obtain ⟨budget, hsome⟩ := not_forall.mp hdiverges
    obtain ⟨⟨result, final⟩, hrun⟩ := Option.ne_none_iff_exists'.mp hsome
    obtain ⟨count, -, outcome, hstops, -⟩ := (run_eq_some_iff hrunning).mp hrun
    exact ⟨count, hstops.le_of_completes hcompletes,
      (endsAfter_iff hrunning).mpr ⟨outcome, final, hstops⟩⟩
  · rintro (hdiverges | ⟨count, hbound, hends⟩)
    · rcases completes_or_stopsAfter hrunning bound with hcompletes | ⟨count, _, _, _, hstops⟩
      · exact hcompletes
      · have hrun := run_of_stopsAfter hstops (Nat.lt_succ_self count)
        rw [hdiverges] at hrun
        cases hrun
    · obtain ⟨outcome, final, hstops⟩ := (endsAfter_iff hrunning).mp hends
      exact hstops.completes_of_le hbound

end Running

/-- A machine that does not run returns at once. -/
theorem eq_of_returns {machine final : Machine} {count : Nat} (hstopped : machine.state ≠ .running)
    (hreturns : machine.Returns count final) : count = 0 ∧ final = machine := by
  obtain ⟨⟨budget, hrun⟩, hcompleted⟩ := hreturns
  have hcount : ¬0 < count := by
    rw [← hcompleted, after_zero, step_of_stopped machine hstopped]
    simp
  obtain rfl := Nat.eq_zero_of_not_pos hcount
  cases budget with
  | zero => cases hrun
  | succ budget =>
    rw [run_of_stopped hstopped] at hrun
    cases hrun
    exact ⟨rfl, rfl⟩

theorem returns_of_stopped {machine : Machine} (hstopped : machine.state ≠ .running) :
    machine.Returns 0 machine := by
  refine ⟨⟨1, run_of_stopped hstopped 0⟩, fun call ↦ ?_⟩
  rw [after_of_stopped hstopped, step_of_stopped machine hstopped]
  simp

/-- Only a running machine can fail. -/
theorem running_of_run_error {machine final : Machine} {budget : Nat} {fault : Fault}
    (hrun : machine.run budget = some (.error fault, final)) : machine.state = .running := by
  refine Decidable.byContradiction fun hstopped ↦ ?_
  cases budget with
  | zero => cases hrun
  | succ budget =>
    rw [run_of_stopped hstopped] at hrun
    cases hrun

/-- A run that returns has completed a number of instructions, and returns it modulo 2^64. -/
theorem exists_returns_of_run {machine final : Machine} {budget : Nat} {executed : UInt64}
    (hrun : machine.run budget = some (.ok executed, final)) :
    ∃ count, machine.Returns count final ∧ executed.toNat = count % 2 ^ 64 := by
  by_cases hrunning : machine.state = .running
  · obtain ⟨count, -, outcome, hstops, hresult⟩ := (run_eq_some_iff hrunning).mp hrun
    cases outcome with
    | completed => exact absurd rfl hstops.incomplete
    | halted =>
      cases hresult
      exact ⟨count, (returns_iff hrunning).mpr hstops, UInt64.toNat_ofNat'⟩
    | unsupported fault => cases hresult
  · cases budget with
    | zero => cases hrun
    | succ budget =>
      rw [run_of_stopped hrunning] at hrun
      cases hrun
      exact ⟨0, returns_of_stopped hrunning, rfl⟩

/-- A run that fails has completed a number of instructions before. -/
theorem exists_fails_of_run {machine final : Machine} {budget : Nat} {fault : Fault}
    (hrun : machine.run budget = some (.error fault, final)) :
    ∃ count, machine.Fails count fault final := by
  have hrunning := running_of_run_error hrun
  obtain ⟨count, -, outcome, hstops, hresult⟩ := (run_eq_some_iff hrunning).mp hrun
  cases outcome with
  | completed | halted => cases hresult
  | unsupported met =>
    cases hresult
    exact ⟨count, (fails_iff hrunning).mpr hstops⟩

/-! ### Runs with a limit and no breakpoints -/

section Limited

variable {machine final : Machine} {count limit : Nat} {outcome : Outcome}

/-- A run comes to its limit if all instructions up to it complete. -/
theorem runUntil_of_completes (hrunning : machine.state = .running)
    (hcompletes : machine.Completes limit final) :
    machine.runUntil Breakpoints.empty limit = (⟨.limit, limit, none⟩, machine.after limit) := by
  obtain ⟨report, left, hresult, hends⟩ := runUntil_ends hrunning Breakpoints.empty limit
  rw [hresult]
  cases hends with
  | limit => rfl
  | breakpoint _ _ _ _ hcontains => cases hcontains
  | stop hcount _ hstops =>
    exact absurd (hstops.le_of_completes hcompletes) (Nat.not_le_of_lt hcount)

/-- A run ends with the call that does not complete if that comes before the limit. -/
theorem runUntil_of_stopsAfter (hstops : machine.StopsAfter count outcome final)
    (hlimit : count < limit) :
    machine.runUntil Breakpoints.empty limit =
      (⟨outcome.state.stopReason, count, outcome.fault?⟩, final) := by
  obtain ⟨report, left, hresult, hends⟩ := runUntil_ends hstops.running Breakpoints.empty limit
  rw [hresult]
  cases hends with
  | limit _ hcompletes =>
    exact absurd (hstops.le_of_completes hcompletes) (Nat.not_le_of_lt hlimit)
  | breakpoint _ _ _ _ hcontains => cases hcontains
  | stop _ _ hother =>
    obtain ⟨rfl, rfl, rfl⟩ := hstops.unique hother
    rfl

/-- A run comes to its limit exactly if all instructions up to it complete. -/
theorem reason_runUntil_eq_limit_iff (hrunning : machine.state = .running) :
    (machine.runUntil Breakpoints.empty limit).1.reason = .limit ↔
      machine.Completes limit (machine.after limit) := by
  constructor
  · intro hreason
    rcases completes_or_stopsAfter hrunning limit with
      hcompletes | ⟨count, hcount, outcome, final, hstops⟩
    · exact hcompletes
    · rw [runUntil_of_stopsAfter hstops hcount] at hreason
      have hincomplete := hstops.incomplete
      cases outcome <;> simp_all [Outcome.state, RunState.stopReason]
  · intro hcompletes
    rw [runUntil_of_completes hrunning hcompletes]

/-- A run that does not come to its limit ends with a call that does not complete. -/
theorem exists_stopsAfter_of_runUntil {report : RunReport} (hrunning : machine.state = .running)
    (hresult : machine.runUntil Breakpoints.empty limit = (report, final))
    (hreason : report.reason ≠ .limit) :
    ∃ count outcome, machine.StopsAfter count outcome final ∧
      report = ⟨outcome.state.stopReason, count, outcome.fault?⟩ := by
  rcases completes_or_stopsAfter hrunning limit with
    hcompletes | ⟨count, hcount, outcome, last, hstops⟩
  · rw [runUntil_of_completes hrunning hcompletes] at hresult
    cases hresult
    exact absurd rfl hreason
  · rw [runUntil_of_stopsAfter hstops hcount] at hresult
    cases hresult
    exact ⟨count, outcome, hstops, rfl⟩

end Limited

/-! ### Agreement -/

/-- Whether a run with a limit and no breakpoints ends as one without a limit that returns a number
of completed instructions: by a break, unless the machine did not run in the first place. -/
def ReturnsWithin (machine : Machine) (limit count : Nat) (final : Machine) : Prop :=
  ∃ report, machine.runUntil Breakpoints.empty limit = (report, final) ∧
    report.executed = count ∧ final.state ≠ .running ∧
      (report.reason = .halted ∨ machine.state ≠ .running ∧ count = 0)

/-- Whether a run with a limit and no breakpoints ends as one without a limit that fails, and writes
the fault to the diagnostics. -/
def FailsWithin (machine : Machine) (limit count : Nat) (fault : Fault) (final : Machine) : Prop :=
  ∃ report, machine.runUntil Breakpoints.empty limit = (report, final) ∧
    report.executed = count ∧ report.reason = .faulted ∧
      ∀ watched pc, (Answer.ofReplies (Session.reportRun report watched pc)).err =
        "[cpu] ".toList ++ fault.message ++ ['\n']

theorem returnsWithin_of_returns {machine final : Machine} {count limit : Nat}
    (hreturns : machine.Returns count final) (hlimit : count < limit) :
    machine.ReturnsWithin limit count final := by
  by_cases hrunning : machine.state = .running
  · have hstops := (returns_iff hrunning).mp hreturns
    exact ⟨_, runUntil_of_stopsAfter hstops hlimit, rfl, hstops.stopped, .inl rfl⟩
  · obtain ⟨rfl, rfl⟩ := eq_of_returns hrunning hreturns
    exact ⟨_, runUntil_of_stopped hrunning _ limit, rfl, hrunning, .inr ⟨hrunning, rfl⟩⟩

theorem returns_of_returnsWithin {machine final : Machine} {count limit : Nat}
    (hwithin : machine.ReturnsWithin limit count final) : machine.Returns count final := by
  obtain ⟨report, hresult, rfl, -, hreason⟩ := hwithin
  by_cases hrunning : machine.state = .running
  · have hhalted : report.reason = .halted := hreason.resolve_right fun h ↦ h.1 hrunning
    obtain ⟨stop, outcome, hstops, rfl⟩ :=
      exists_stopsAfter_of_runUntil hrunning hresult (by rw [hhalted]; decide)
    cases outcome with
    | completed => exact absurd rfl hstops.incomplete
    | halted => exact (returns_iff hrunning).mpr hstops
    | unsupported fault => cases hhalted
  · rw [runUntil_of_stopped hrunning] at hresult
    cases hresult
    exact returns_of_stopped hrunning

theorem running_of_fails {machine final : Machine} {count : Nat} {fault : Fault}
    (hfails : machine.Fails count fault final) : machine.state = .running := by
  obtain ⟨⟨budget, hrun⟩, -⟩ := hfails
  exact running_of_run_error hrun

theorem failsWithin_of_fails {machine final : Machine} {count limit : Nat} {fault : Fault}
    (hfails : machine.Fails count fault final) (hlimit : count < limit) :
    machine.FailsWithin limit count fault final := by
  have hstops := (fails_iff (running_of_fails hfails)).mp hfails
  refine ⟨_, runUntil_of_stopsAfter hstops hlimit, rfl, rfl, fun watched pc ↦ ?_⟩
  change ([Reply.fault fault].filter Reply.isDiagnostic).flatMap Reply.text = _
  simp [List.filter_cons, Reply.isDiagnostic, Reply.text, unlines]

/-- A running machine whose run with a limit comes to a fault fails without the limit. -/
theorem fails_of_runUntil_faulted {machine : Machine} {limit : Nat}
    (hrunning : machine.state = .running)
    (hreason : (machine.runUntil Breakpoints.empty limit).1.reason = .faulted) :
    ∃ fault final,
      machine.Fails (machine.runUntil Breakpoints.empty limit).1.executed fault final := by
  generalize hresult : machine.runUntil Breakpoints.empty limit = result at hreason ⊢
  obtain ⟨stop, outcome, hstops, hreport⟩ :=
    exists_stopsAfter_of_runUntil hrunning hresult (by rw [hreason]; decide)
  rw [hreport] at hreason ⊢
  cases outcome with
  | completed => exact absurd rfl hstops.incomplete
  | halted => cases hreason
  | unsupported fault => exact ⟨fault, _, (fails_iff hrunning).mpr hstops⟩

/-- What completes before a run ends by itself is all that a smaller limit allows for. -/
theorem runUntil_of_le {machine : Machine} {count limit : Nat} (hrunning : machine.state = .running)
    (hends : machine.EndsAfter count) (hlimit : limit ≤ count) :
    machine.runUntil Breakpoints.empty limit = (⟨.limit, limit, none⟩, machine.after limit) :=
  runUntil_of_completes hrunning ((completes_iff hrunning).mpr (.inr ⟨count, hlimit, hends⟩))

theorem running_of_diverges {machine : Machine} (hdiverges : machine.Diverges) :
    machine.state = .running := by
  refine Decidable.byContradiction fun hstopped ↦ ?_
  have hrun := run_of_stopped hstopped 0
  rw [hdiverges] at hrun
  cases hrun

/-- A run that completes an instruction begins with a running machine. -/
theorem running_of_endsAfter {machine : Machine} {count : Nat} (hpositive : 0 < count)
    (hends : machine.EndsAfter count) : machine.state = .running := by
  refine Decidable.byContradiction fun hstopped ↦ ?_
  rcases hends with ⟨final, hreturns⟩ | ⟨fault, final, hfails⟩
  · exact Nat.ne_of_gt hpositive (eq_of_returns hstopped hreturns).1
  · exact hstopped (running_of_fails hfails)

/-! ### Limits of 64 bits -/

theorem exists_limit {count : Nat} (hcount : count < 2 ^ 64) :
    ∃ limit : UInt64, limit.toNat = count :=
  ⟨UInt64.ofNat count, UInt64.toNat_ofNat_of_lt' hcount⟩

/-- Whether the runs of a machine with a limit and no breakpoints agree with the one without a
limit. Runs with a limit are compared by the number of completed instructions, as long as that is
below the largest limit. -/
structure RunsAgree (machine : Machine) : Prop where
  /-- A run that returns has completed some number of instructions, and returns it modulo 2^64. -/
  exists_returns : ∀ budget executed final, machine.run budget = some (.ok executed, final) →
    ∃ count, machine.Returns count final ∧ executed.toNat = count % 2 ^ 64
  exists_fails : ∀ budget fault final, machine.run budget = some (.error fault, final) →
    ∃ count, machine.Fails count fault final
  returns_iff_exists : ∀ count final, count + 1 < 2 ^ 64 → (machine.Returns count final ↔
    ∃ limit : UInt64, count < limit.toNat ∧ machine.ReturnsWithin limit.toNat count final)
  returns_iff_forall : ∀ count final, count + 1 < 2 ^ 64 → (machine.Returns count final ↔
    ∀ limit : UInt64, count < limit.toNat → machine.ReturnsWithin limit.toNat count final)
  fails_iff : ∀ count, count + 1 < 2 ^ 64 → ((∃ fault final, machine.Fails count fault final) ↔
    machine.state = .running ∧ ∀ limit : UInt64, count < limit.toNat →
      (machine.runUntil Breakpoints.empty limit.toNat).1.reason = .faulted ∧
        (machine.runUntil Breakpoints.empty limit.toNat).1.executed = count)
  fails_within : ∀ count fault final, machine.Fails count fault final →
    ∀ limit : UInt64, count < limit.toNat → machine.FailsWithin limit.toNat count fault final
  /-- A limit that is not larger than the number of completed instructions is reached. -/
  limit_of_le : machine.state = .running → ∀ count, machine.EndsAfter count →
    ∀ limit : UInt64, limit.toNat ≤ count →
      (machine.runUntil Breakpoints.empty limit.toNat).1 = ⟨.limit, limit.toNat, none⟩
  /-- Every limit is reached exactly if the run goes on for ever, or completes as many instructions
  as the largest limit allows for. -/
  diverges_or_long_iff :
    (machine.Diverges ∨ ∃ count, 2 ^ 64 ≤ count + 1 ∧ machine.EndsAfter count) ↔
      machine.state = .running ∧
        ∀ limit : UInt64, (machine.runUntil Breakpoints.empty limit.toNat).1.reason = .limit

/-- The run of a machine without a limit agrees with its runs with a limit and no breakpoints. It
returns exactly if those with a larger limit halt, or the machine did not run; it fails exactly if
they come to a fault; and all of them come to their limit exactly if it goes on for ever, or longer
than there are limits. What they count and the machines that they leave are the same. -/
theorem run_agrees_with_runUntil (machine : Machine) : machine.RunsAgree := by
  constructor
  case exists_returns => exact fun _ _ _ hrun ↦ exists_returns_of_run hrun
  case exists_fails => exact fun _ _ _ hrun ↦ exists_fails_of_run hrun
  case returns_iff_exists =>
    intro count final hcount
    constructor
    · intro hreturns
      obtain ⟨limit, hlimit⟩ := exists_limit hcount
      have hlarger : count < limit.toNat := by omega
      exact ⟨limit, hlarger, returnsWithin_of_returns hreturns hlarger⟩
    · rintro ⟨limit, -, hwithin⟩
      exact returns_of_returnsWithin hwithin
  case returns_iff_forall =>
    intro count final hcount
    constructor
    · intro hreturns limit hlimit
      exact returnsWithin_of_returns hreturns hlimit
    · intro hwithin
      obtain ⟨limit, hlimit⟩ := exists_limit hcount
      exact returns_of_returnsWithin (hwithin limit (by omega))
  case fails_iff =>
    intro count hcount
    constructor
    · rintro ⟨fault, final, hfails⟩
      refine ⟨running_of_fails hfails, fun limit hlimit ↦ ?_⟩
      obtain ⟨report, hresult, hexecuted, hreason, -⟩ := failsWithin_of_fails hfails hlimit
      rw [hresult]
      exact ⟨hreason, hexecuted⟩
    · rintro ⟨hrunning, hwithin⟩
      obtain ⟨limit, hlimit⟩ := exists_limit hcount
      obtain ⟨hreason, hexecuted⟩ := hwithin limit (by omega)
      have hfails := fails_of_runUntil_faulted hrunning hreason
      rwa [hexecuted] at hfails
  case fails_within =>
    intro count fault final hfails limit hlimit
    exact failsWithin_of_fails hfails hlimit
  case limit_of_le =>
    intro hrunning count hends limit hlimit
    rw [runUntil_of_le hrunning hends hlimit]
  case diverges_or_long_iff =>
    constructor
    · intro hlong
      have hrunning : machine.state = .running := by
        rcases hlong with hdiverges | ⟨count, hcount, hends⟩
        · exact running_of_diverges hdiverges
        · exact running_of_endsAfter (by omega) hends
      refine ⟨hrunning, fun limit ↦ ?_⟩
      have hbound := limit.toNat_lt
      rw [reason_runUntil_eq_limit_iff hrunning, completes_iff hrunning]
      exact hlong.imp_right fun ⟨count, hcount, hends⟩ ↦ ⟨count, by omega, hends⟩
    · rintro ⟨hrunning, hlimit⟩
      obtain ⟨largest, hlargest⟩ := exists_limit (by decide : 2 ^ 64 - 1 < 2 ^ 64)
      have hcompletes := (reason_runUntil_eq_limit_iff hrunning).mp (hlimit largest)
      rw [completes_iff hrunning] at hcompletes
      exact hcompletes.imp_right fun ⟨count, hcount, hends⟩ ↦ ⟨count, by omega, hends⟩

/-- Whether the runs of a machine agree by the number that the one without a limit returns, or by
the number of instructions in front of its fault, for all numbers and limits of 64 bits. -/
structure CountsAgree (machine : Machine) : Prop where
  returns_iff : ∀ (count : UInt64) final,
    (∃ budget, machine.run budget = some (.ok count, final)) ↔
      ∃ limit : UInt64, count < limit ∧ machine.ReturnsWithin limit.toNat count.toNat final
  returns_within : ∀ (count : UInt64) final,
    (∃ budget, machine.run budget = some (.ok count, final)) →
      ∀ limit : UInt64, count < limit → machine.ReturnsWithin limit.toNat count.toNat final
  fails_iff : ∀ count : UInt64, (∃ fault final, machine.Fails count.toNat fault final) ↔
    machine.state = .running ∧ ∀ limit : UInt64, count < limit →
      (machine.runUntil Breakpoints.empty limit.toNat).1.reason = .faulted ∧
        (machine.runUntil Breakpoints.empty limit.toNat).1.executed = count.toNat
  fails_within : ∀ (count : UInt64) fault final, machine.Fails count.toNat fault final →
    ∀ limit : UInt64, count < limit → machine.FailsWithin limit.toNat count.toNat fault final
  limit_of_le : machine.state = .running → ∀ count : UInt64,
    (∃ budget final, machine.run budget = some (.ok count, final)) ∨
        (∃ fault final, machine.Fails count.toNat fault final) →
      ∀ limit ≤ count,
        (machine.runUntil Breakpoints.empty limit.toNat).1 = ⟨.limit, limit.toNat, none⟩
  diverges_iff : machine.Diverges ↔ machine.state = .running ∧
    ∀ limit : UInt64, (machine.runUntil Breakpoints.empty limit.toNat).1.reason = .limit

/-- The number that a run returns does not tell how the runs with a limit end. A machine that halts
behind 2^64 instructions or more returns a number, but comes to every limit; and no limit is larger
than the largest number, so that the condition for a fault behind as many instructions asks for
nothing, even of a machine that finds a break at once. -/
theorem not_countsAgree : ¬odometer.CountsAgree ∧ ¬({} : Machine).CountsAgree := by
  constructor
  · intro hagree
    obtain ⟨count, final, hcount, hstops⟩ := odometer_stopsAfter
    have hrunning : odometer.state = .running := rfl
    have hends : odometer.EndsAfter count :=
      (endsAfter_iff hrunning).mpr ⟨.halted, final, hstops⟩
    have hlimits (limit : UInt64) :
        (odometer.runUntil Breakpoints.empty limit.toNat).1.reason = .limit := by
      rw [runUntil_of_le hrunning hends (Nat.le_trans (Nat.le_of_lt limit.toNat_lt) hcount)]
    have hnone := hagree.diverges_iff.mpr ⟨hrunning, hlimits⟩ (count + 1)
    rw [run_of_stopsAfter hstops (Nat.lt_succ_self count)] at hnone
    cases hnone
  · intro hagree
    have hrunning : ({} : Machine).state = .running := rfl
    obtain ⟨largest, hlargest⟩ := exists_limit (by decide : 2 ^ 64 - 1 < 2 ^ 64)
    have hnone (limit : UInt64) : ¬largest < limit := by
      have hlimit := limit.toNat_lt
      rw [UInt64.lt_iff_toNat_lt]
      omega
    obtain ⟨fault, final, hfails⟩ := (hagree.fails_iff largest).mpr
      ⟨hrunning, fun limit hlimit ↦ absurd hlimit (hnone limit)⟩
    obtain ⟨halted, hbreak, -⟩ := step_brk hrunning (by rw [Memory.read_blank]; rfl)
    have hfirst := (hfails.2 0).mpr (by omega)
    rw [after_zero, hbreak] at hfirst
    cases hfirst

end Machine

end Mos6502
