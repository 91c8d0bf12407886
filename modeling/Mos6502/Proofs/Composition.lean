import Mathlib.Data.List.TakeWhile
import Mos6502.Proofs.Agreement
import Mos6502.Proofs.FailedCommands
import Mos6502.Proofs.SessionTrace

/-!
Runs in parts. What a run completed before matters to its count, and to whether it looks for a
breakpoint at once (`Machine.runUntilFrom_eq_behind`). So a run with a limit goes on from a part of
it that came to its own limit (`Machine.runUntilFrom_add`), and differs from two runs in a row only
where the second one begins at a breakpoint, which it leaves (`Machine.runUntil_add`).

Without breakpoints a run leaves the machine after as many calls of `step` as its limit allows
(`Machine.runUntil_empty`), hence lines that ask the monitor for instructions can be divided in any
way. `Machine.run_in_parts` puts both together.
-/

set_option autoImplicit false
set_option relaxedAutoImplicit false

namespace Mos6502

/-! ### Two runs for one -/

/-- The report of a run that went on behind instructions that were completed before. -/
def RunReport.behind (completed : Nat) (report : RunReport) : RunReport :=
  { report with executed := completed + report.executed }

theorem RunState.stopReason_eq_limit_iff (state : RunState) :
    state.stopReason = .limit ↔ state = .running := by
  cases state <;> simp [stopReason]

namespace Machine

/-- What was completed before is counted, and nothing else, as soon as one instruction was. -/
theorem runUntilFrom_add_executed (breakpoints : Breakpoints) (completed remaining : Nat)
    {executed : Nat} (hexecuted : executed ≠ 0) (machine : Machine) :
    machine.runUntilFrom breakpoints (completed + executed) remaining =
      (machine.runUntilFrom breakpoints executed remaining).map (·.behind completed) id := by
  have hboth : completed + executed ≠ 0 := by omega
  induction remaining generalizing executed machine with
  | zero => rfl
  | succ remaining ih =>
    unfold runUntilFrom
    simp only [ne_eq, hexecuted, hboth, not_false_eq_true, true_and]
    split
    · rfl
    · split
      · rfl
      · split
        · exact ih (Nat.succ_ne_zero executed) _ (Nat.succ_ne_zero _)
        · rfl

/-- A run that goes on is a new run with its count, unless it ought to stop at once. -/
theorem runUntilFrom_eq_behind {breakpoints : Breakpoints} {completed remaining : Nat}
    {machine : Machine}
    (hleaves : ¬(0 < completed ∧ 0 < remaining ∧
      breakpoints.contains machine.registers.pc = true)) :
    machine.runUntilFrom breakpoints completed remaining =
      (machine.runUntil breakpoints remaining).map (·.behind completed) id := by
  unfold runUntil
  cases remaining with
  | zero => rfl
  | succ remaining =>
    have hpasses : ¬(completed ≠ 0 ∧ breakpoints.contains machine.registers.pc = true) :=
      fun hstops ↦ hleaves ⟨Nat.pos_of_ne_zero hstops.1, Nat.succ_pos remaining, hstops.2⟩
    have hfresh : ¬((0 : Nat) ≠ 0 ∧ breakpoints.contains machine.registers.pc = true) :=
      fun hstops ↦ hstops.1 rfl
    rw [runUntilFrom, runUntilFrom, if_neg hpasses, if_neg hfresh]
    split
    · rfl
    · split
      · exact runUntilFrom_add_executed breakpoints completed remaining Nat.one_ne_zero _
      · rfl

/-- A run goes on where a part of it came to its limit, and is over where that part ended
otherwise. -/
theorem runUntilFrom_add (breakpoints : Breakpoints) (executed first second : Nat)
    (machine : Machine) :
    machine.runUntilFrom breakpoints executed (first + second) =
      let (report, middle) := machine.runUntilFrom breakpoints executed first
      if report.reason = .limit then middle.runUntilFrom breakpoints (executed + first) second
      else (report, middle) := by
  by_cases hrunning : machine.state = .running
  case neg =>
    have hreason : machine.state.stopReason ≠ .limit := fun hlimit ↦
      hrunning (machine.state.stopReason_eq_limit_iff.mp hlimit)
    simp only [runUntilFrom_of_stopped hrunning, if_neg hreason]
  induction first generalizing executed machine with
  | zero =>
    simp only [Nat.zero_add, runUntilFrom, hrunning]
    rfl
  | succ first ih =>
    rw [Nat.add_right_comm, runUntilFrom, runUntilFrom, if_neg (not_not_intro hrunning),
      if_neg (not_not_intro hrunning)]
    by_cases hbreak : executed ≠ 0 ∧ breakpoints.contains machine.registers.pc
    · rw [if_pos hbreak, if_pos hbreak]
      rfl
    · rw [if_neg hbreak, if_neg hbreak]
      obtain ⟨outcome, next, hstep⟩ := exists_step_of_running hrunning
      have hstate := state_of_step hstep
      rw [hstep]
      cases outcome with
      | completed =>
        rw [← Nat.add_assoc executed, Nat.add_right_comm executed]
        exact ih (executed + 1) next hstate
      | halted | unsupported fault =>
        -- The machine has stopped, so its state is no reason to go on.
        simp only [hstate]
        rfl

/-- Two runs in a row, put together. The second one counts on from the first, unless that one ended
before its limit, or the second ought to stop at once at a breakpoint behind the first. -/
def runInTwo (machine : Machine) (breakpoints : Breakpoints) (first second : Nat) :
    RunReport × Machine :=
  let (report, middle) := machine.runUntil breakpoints first
  if report.reason ≠ .limit then (report, middle)
  else if 0 < first ∧ 0 < second ∧ breakpoints.contains middle.registers.pc then
    (⟨.breakpoint, first, none⟩, middle)
  else
    let (rest, final) := middle.runUntil breakpoints second
    (rest.behind first, final)

/-- A run that came to its limit left the machine running. -/
theorem running_of_runUntil_limit {machine middle : Machine} {breakpoints : Breakpoints}
    {limit : Nat} {report : RunReport}
    (hrun : machine.runUntil breakpoints limit = (report, middle))
    (hreason : report.reason = .limit) : middle.state = .running := by
  by_cases hrunning : machine.state = .running
  · obtain ⟨_, _, hresult, hends⟩ := runUntil_ends hrunning breakpoints limit
    rw [hrun] at hresult
    cases hresult
    cases hends with
    | limit _ hcompletes => exact hcompletes.running hrunning
    | breakpoint => cases hreason
    | stop _ _ hstops =>
      rw [hstops.state_eq]
      exact (RunState.stopReason_eq_limit_iff _).mp hreason
  · rw [runUntil_of_stopped hrunning] at hrun
    cases hrun
    exact (RunState.stopReason_eq_limit_iff _).mp hreason

/-- A run is two runs in a row with limits that add up to its own, put together. -/
theorem runUntil_add (machine : Machine) (breakpoints : Breakpoints) (first second : Nat) :
    machine.runUntil breakpoints (first + second) = machine.runInTwo breakpoints first second := by
  have hparts := runUntilFrom_add breakpoints 0 first second machine
  rw [Nat.zero_add] at hparts
  rw [runInTwo, runUntil, hparts, ← runUntil]
  obtain ⟨report, middle, hrun⟩ : ∃ report middle,
      machine.runUntil breakpoints first = (report, middle) := ⟨_, _, rfl⟩
  rw [hrun]
  by_cases hreason : report.reason = .limit
  case neg => simp only [if_neg hreason, if_pos hreason]
  simp only [if_pos hreason, if_neg (not_not_intro hreason)]
  by_cases hstops : 0 < first ∧ 0 < second ∧ breakpoints.contains middle.registers.pc = true
  · have hrunning := running_of_runUntil_limit hrun hreason
    obtain ⟨more, rfl⟩ := Nat.exists_eq_add_of_lt hstops.2.1
    rw [if_pos hstops, runUntilFrom, if_neg (not_not_intro hrunning),
      if_pos ⟨Nat.ne_of_gt hstops.1, hstops.2.2⟩]
  · rw [if_neg hstops, runUntilFrom_eq_behind hstops]
    rfl

/-- Two runs of one instruction leave a breakpoint between them, where one run of two stops. -/
example :
    let machine : Machine := { memory := Memory.blank.writeBytes 0 [0xEA, 0xEA] }
    let breakpoints := Breakpoints.ofList [0x0001]
    (machine.runUntil breakpoints 2).1 = ⟨.breakpoint, 1, none⟩ ∧
      ((machine.runUntil breakpoints 1).2.runUntil breakpoints 1).1 = ⟨.limit, 1, none⟩ := by
  decide +kernel

/-! ### Runs without breakpoints -/

/-- Without breakpoints a run leaves the machine after as many calls as its limit allows. -/
theorem runUntil_empty (machine : Machine) (limit : Nat) :
    (machine.runUntil Breakpoints.empty limit).2 = machine.after limit := by
  by_cases hrunning : machine.state = .running
  case neg => rw [runUntil_of_stopped hrunning, after_of_stopped hrunning]
  rcases completes_or_stopsAfter hrunning limit with
    hcompletes | ⟨count, hcount, outcome, final, hstops⟩
  · rw [runUntil_of_completes hrunning hcompletes]
  · obtain ⟨more, rfl⟩ := Nat.exists_eq_add_of_le (Nat.succ_le_of_lt hcount)
    rw [runUntil_of_stopsAfter hstops hcount, Nat.succ_eq_add_one, after_add, hstops.after_eq,
      after_of_stopped hstops.stopped]

end Machine

/-! ### Lines that ask for instructions -/

/-- The number of instructions that a line asks the monitor for: one by `s`, and as many as it says
by `r`. -/
def Text.askedFor? (line : Text) : Option Nat :=
  match Command.parse line with
  | .ok .step => some 1
  | .ok (.run count) => some count
  | _ => none

theorem isDigit_of_mem_decimal {number : Nat} {character : Char}
    (hmem : character ∈ decimal number) : character.isDigit = true :=
  Nat.isDigit_of_mem_toDigits (by decide) (by decide) hmem

theorem Text.isBlank_of_isDigit {character : Char} (hdigit : character.isDigit = true) :
    isBlank character = false := by
  have hrange : 48 ≤ character.toNat ∧ character.toNat ≤ 57 := Char.isDigit_iff_toNat.mp hdigit
  have hspace : character ≠ ' ' := by
    rintro rfl
    exact absurd hrange.1 (by decide)
  have hcontrol : ¬character.toNat ≤ 13 := by omega
  simp [isBlank, hspace, hcontrol]

namespace Command

theorem leadingNatural_decimal (number : Nat) : leadingNatural (decimal number) = number := by
  have hdigits : (decimal number).takeWhile Char.isDigit = decimal number :=
    List.takeWhile_eq_self_iff.mpr fun _ ↦ isDigit_of_mem_decimal
  rw [leadingNatural, hdigits]
  exact Nat.ofDigitChars_ten_toDigits

theorem leadingInteger_decimal {number : Nat} (hsmall : number ≤ 2147483647) :
    leadingInteger (decimal number) = number := by
  have hsigns (sign : Char) (hsign : sign.isDigit = false) : sign ∉ decimal number := fun hmem ↦ by
    rw [isDigit_of_mem_decimal hmem] at hsign
    cases hsign
  have hvalue : saturate (leadingNatural (decimal number)) = number := by
    rw [leadingNatural_decimal, saturate]
    omega
  unfold leadingInteger
  split
  · next hword => exact absurd (hword ▸ List.mem_cons_self) (hsigns '-' rfl)
  · next hword => exact absurd (hword ▸ List.mem_cons_self) (hsigns '+' rfl)
  · exact hvalue

/-- The command `r` with a number from one on is the run of as many instructions. -/
theorem parse_run {number : Nat} (hpositive : 0 < number) (hsmall : number ≤ 2147483647) :
    parse ("r ".toList ++ decimal number) = .ok (.run number) := by
  have hwords : Text.words ("r ".toList ++ decimal number) = [['r'], decimal number] := by
    have hblank : ∀ character ∈ decimal number, Text.isBlank character = false :=
      fun _ hmem ↦ Text.isBlank_of_isDigit (isDigit_of_mem_decimal hmem)
    have hdecimal : Text.words (decimal number) = [decimal number] :=
      Text.words_of_plain Nat.toDigits_ne_nil hblank
    have hcut := Text.words_append_cons ['r'] (show Text.isBlank ' ' = true from rfl)
      (decimal number)
    rw [hdecimal] at hcut
    exact hcut
  have hcount : positiveCount 1 (some (decimal number)) = number := by
    rw [positiveCount, leadingInteger_decimal hsmall]
    simp [hpositive]
  rw [parse, hwords]
  exact congrArg (Except.ok ∘ Command.run) hcount

end Command

theorem Text.askedFor?_run {number : Nat} (hpositive : 0 < number) (hsmall : number ≤ 2147483647) :
    askedFor? ("r ".toList ++ decimal number) = some number := by
  rw [askedFor?, Command.parse_run hpositive hsmall]

/-- Names may be capital, and what follows the number does not count. -/
example : ["s", "R 12 7", "r", "r -3", "g"].map (fun line ↦ Text.askedFor? line.toList) =
    [some 1, some 12, some 1, some 1, none] := by
  decide

namespace Session

variable {session : Session} (hnone : session.breakpoints = Breakpoints.empty)
include hnone

/-- A line that asks for instructions calls `step` as often. -/
theorem answer_of_askedFor {line : Text} {count : Nat} (hasked : line.askedFor? = some count)
    (files : Files) :
    (session.answer files line).2 =
      some { session with machine := session.machine.after count } := by
  unfold Text.askedFor? at hasked
  split at hasked
  · next hparse =>
    cases hasked
    rw [answer_of_parse hparse (by simp)]
    rfl
  · next hparse =>
    cases hasked
    rw [answer_of_parse hparse (by simp), respond, run, hnone, ← Machine.runUntil_empty]
  · cases hasked

/-- Lines that ask for instructions call `step` as often as they ask for in all. -/
theorem afterLines_of_askedFor {typed : List (Files × Text)} {counts : List Nat}
    (hasked : List.Forall₂ (fun entry count ↦ entry.2.askedFor? = some count) typed counts) :
    session.afterLines typed =
      some { session with machine := session.machine.after counts.sum } := by
  induction hasked generalizing session with
  | nil => rfl
  | @cons entry count typed counts hfirst hrest ih =>
    rw [afterLines_cons, answer_of_askedFor hnone hfirst, Option.bind_some, List.sum_cons,
      Machine.after_add]
    exact ih hnone

end Session

namespace Machine

/-- Whether the runs of a machine can be made in parts. -/
structure RunsInParts (machine : Machine) : Prop where
  /-- A run is two runs in a row, put together, whatever the breakpoints and the limits are. -/
  two : ∀ breakpoints first second,
    machine.runUntil breakpoints (first + second) = machine.runInTwo breakpoints first second
  /-- Without breakpoints, lines that ask for instructions lead to the machine to which a single `r`
  leads that asks for as many. -/
  lines : ∀ typed counts,
    List.Forall₂ (fun entry count ↦ Text.askedFor? entry.2 = some count) typed counts →
      0 < counts.sum → counts.sum ≤ 2147483647 → ∀ files, ∃ final,
        ({ machine } : Session).afterLines typed = some { machine := final } ∧
          ({ machine } : Session).afterLines [(files, "r ".toList ++ decimal counts.sum)] =
            some { machine := final }

/-- All runs can be made in parts. Numbers of instructions have no bound here, but for the one that
a line can ask for. -/
theorem run_in_parts (machine : Machine) : machine.RunsInParts := by
  constructor
  case two => exact machine.runUntil_add
  case lines =>
    intro typed counts hasked hpositive hsmall files
    have hnone : ({ machine } : Session).breakpoints = Breakpoints.empty := rfl
    have hsingle := Session.answer_of_askedFor hnone (Text.askedFor?_run hpositive hsmall) files
    refine ⟨_, Session.afterLines_of_askedFor hnone hasked, ?_⟩
    rw [Session.afterLines_cons, hsingle]
    rfl

end Machine

end Mos6502
