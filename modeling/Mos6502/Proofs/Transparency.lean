import Mathlib.Data.List.Forall2
import Mos6502.Interface
import Mos6502.Proofs.Calls

/-!
The trace tells of a run and never changes it. Two machines that agree beyond their traces
(`Machine.AgreeBeyondTrace`) may record or not, keep any number of frames, and hold any frames and
any pending traffic. To every request they give the same answer, and they still agree afterwards
(`Machine.AgreeBeyondTrace.perform`). The requests that are about the trace alone may differ between
the two, for they answer nothing.

`Machine.trail_independent_of_trace` says so for all requests in a row.
-/

set_option autoImplicit false
set_option relaxedAutoImplicit false

namespace Mos6502

namespace Machine

/-! ### Agreement -/

/-- Whether two machines agree in all but what they record and what they have recorded. -/
structure AgreeBeyondTrace (first second : Machine) : Prop
    extends AgreeBeyondSettings first second where
  indirect : second.settings.indirect = first.settings.indirect

/-- Whether two machines gave the same answer, and were left in agreement. -/
structure Alike {α : Type} (first second : α × Machine) : Prop where
  answer : second.1 = first.1
  machines : first.2.AgreeBeyondTrace second.2

theorem Alike.exists_eq {α : Type} {first second : α × Machine} (halike : Alike first second) :
    ∃ answer next other, first = (answer, next) ∧ second = (answer, other) ∧
      next.AgreeBeyondTrace other :=
  ⟨first.1, first.2, second.2, rfl, Prod.ext halike.answer rfl, halike.machines⟩

theorem Alike.map {α β : Type} {first second : α × Machine} (halike : Alike first second)
    (answer : α → β) : Alike (answer first.1, first.2) (answer second.1, second.2) :=
  ⟨congrArg answer halike.answer, halike.machines⟩

theorem Alike.rel_map {α β : Type} {first second : Option (α × Machine)}
    (halike : Option.Rel Alike first second) (answer : α → β) :
    Option.Rel Alike (first.map fun (given, next) ↦ (answer given, next))
      (second.map fun (given, next) ↦ (answer given, next)) := by
  cases halike with
  | none => exact .none
  | some halike => exact .some (halike.map answer)

namespace AgreeBeyondTrace

theorem symm {first second : Machine} (hagree : first.AgreeBeyondTrace second) :
    second.AgreeBeyondTrace first where
  registers := hagree.registers.symm
  memory := hagree.memory.symm
  state := hagree.state.symm
  steps := hagree.steps.symm
  indirect := hagree.indirect.symm

theorem trans {first second third : Machine} (hleft : first.AgreeBeyondTrace second)
    (hright : second.AgreeBeyondTrace third) : first.AgreeBeyondTrace third where
  registers := hright.registers.trans hleft.registers
  memory := hright.memory.trans hleft.memory
  state := hright.state.trans hleft.state
  steps := hright.steps.trans hleft.steps
  indirect := hright.indirect.trans hleft.indirect

variable {first second : Machine} (hagree : first.AgreeBeyondTrace second)
include hagree

/-! ### Changes from outside -/

theorem withMemory (memory : Memory) :
    (first.withMemory memory).AgreeBeyondTrace (second.withMemory memory) :=
  { hagree with memory := rfl }

/-- A rule for the indirect modes that both machines get is the same for both. -/
theorem withSettings {one other : Settings} (hindirect : other.indirect = one.indirect) :
    (first.withSettings one).AgreeBeyondTrace (second.withSettings other) :=
  { hagree with indirect := hindirect }

theorem reset : first.reset.AgreeBeyondTrace second.reset where
  registers := by simp only [Machine.reset, hagree.registers, hagree.memory]
  memory := hagree.memory
  state := rfl
  steps := rfl
  indirect := hagree.indirect

/-- Asking for an operand address leaves traffic to the trace at most. -/
theorem resolveOperand (mode : Option Mode) :
    Alike (first.resolveOperand mode) (second.resolveOperand mode) := by
  cases mode with
  | none => exact ⟨rfl, hagree⟩
  | some mode =>
    simp only [Machine.resolveOperand, hagree.indirect, hagree.registers, hagree.memory]
    exact ⟨rfl, { hagree with registers := rfl, memory := rfl }⟩

theorem loadProgram (bytes : List UInt8) (origin : UInt16) :
    Alike (first.answerLoad (first.loadProgram bytes origin))
      (second.answerLoad (second.loadProgram bytes origin)) := by
  rw [Machine.loadProgram, Machine.loadProgram, hagree.memory]
  cases first.memory.load origin bytes with
  | error error => exact ⟨rfl, hagree⟩
  | ok memory => exact ⟨rfl, hagree.withMemory _⟩

theorem load (bytes : List UInt8) (origin : UInt16) :
    Alike (first.answerLoad ((first.memory.load origin bytes).map first.withMemory))
      (second.answerLoad ((second.memory.load origin bytes).map second.withMemory)) := by
  rw [hagree.memory]
  cases first.memory.load origin bytes with
  | error error => exact ⟨rfl, hagree⟩
  | ok memory => exact ⟨rfl, hagree.withMemory memory⟩

/-! ### Steps and runs -/

/-- The turn of the processor does not depend on the trace. -/
theorem step : Alike first.step second.step := by
  have hturn : second.cycle.run second.memory = first.cycle.run first.memory := by
    rw [cycle, cycle, hagree.indirect, hagree.registers, hagree.memory]
  obtain ⟨houtcome, hnext⟩ := hagree.toAgreeBeyondSettings.step fun _ ↦ hturn
  exact ⟨houtcome, hnext, by rw [settings_step, settings_step, hagree.indirect]⟩

theorem runFrom (executed : UInt64) (budget : Nat) :
    Option.Rel Alike (first.runFrom executed budget) (second.runFrom executed budget) := by
  induction budget generalizing first second executed with
  | zero => exact .none
  | succ budget ih =>
    obtain ⟨outcome, next, other, hfirst, hsecond, hnext⟩ := hagree.step.exists_eq
    rw [Machine.runFrom, Machine.runFrom, hfirst, hsecond]
    cases outcome with
    | none => exact .some ⟨rfl, hnext⟩
    | some outcome =>
      cases outcome with
      | completed => exact ih hnext (executed + 1)
      | halted => exact .some ⟨rfl, hnext⟩
      | unsupported fault => exact .some ⟨rfl, hnext⟩

theorem runUntilFrom (breakpoints : Breakpoints) (executed remaining : Nat) :
    Alike (first.runUntilFrom breakpoints executed remaining)
      (second.runUntilFrom breakpoints executed remaining) := by
  induction remaining generalizing first second executed with
  | zero =>
    rw [Machine.runUntilFrom, Machine.runUntilFrom, hagree.state]
    exact ⟨rfl, hagree⟩
  | succ remaining ih =>
    rw [Machine.runUntilFrom, Machine.runUntilFrom, hagree.state, hagree.registers]
    by_cases hstopped : first.state ≠ .running
    · rw [if_pos hstopped, if_pos hstopped]
      exact ⟨rfl, hagree⟩
    rw [if_neg hstopped, if_neg hstopped]
    by_cases hbreakpoint : executed ≠ 0 ∧ breakpoints.contains first.registers.pc
    · rw [if_pos hbreakpoint, if_pos hbreakpoint]
      exact ⟨rfl, hagree⟩
    obtain ⟨outcome, next, other, hfirst, hsecond, hnext⟩ := hagree.step.exists_eq
    rw [if_neg hbreakpoint, if_neg hbreakpoint, hfirst, hsecond]
    cases outcome with
    | none => exact ⟨by simp only [hnext.state], hnext⟩
    | some outcome =>
      cases outcome with
      | completed => exact ih hnext (executed + 1)
      | halted => exact ⟨by simp only [hnext.state], hnext⟩
      | unsupported fault => exact ⟨by simp only [hnext.state], hnext⟩

theorem loadAndRun (budget : Nat) (bytes : List UInt8) :
    Option.Rel Alike (first.perform (.loadAndRun budget bytes))
      (second.perform (.loadAndRun budget bytes)) := by
  simp only [Machine.perform, Machine.loadAndRun, Machine.loadProgram, hagree.memory]
  cases first.memory.load Memory.programOrigin bytes with
  | error error => exact .some ⟨rfl, hagree⟩
  | ok memory =>
    let placed := memory.writeWord Memory.resetVector Memory.programOrigin
    have hloaded := (hagree.withMemory placed).reset
    exact Alike.rel_map (hloaded.runFrom 0 budget) fun result ↦
      ({ result := resultOfRun (fun _ ↦ .truth true) result } : Response)

/-! ### Requests -/

/-- To the same request both machines give the same answer. -/
theorem perform (request : Request) :
    Option.Rel Alike (first.perform request) (second.perform request) := by
  cases request with
  | step =>
    exact .some (hagree.step.map fun outcome ↦ ({ result := resultOfStep outcome } : Response))
  | tryStep =>
    exact .some (hagree.step.map fun outcome ↦ ({
      result := .ok (.truth (outcome = some .completed))
      diagnostics := diagnosis (outcome.bind Outcome.fault?) } : Response))
  | run budget =>
    exact Alike.rel_map (hagree.runFrom 0 budget) fun result ↦
      ({ result := resultOfRun (fun executed ↦ .count executed.toNat) result } : Response)
  | runUntil breakpoints limit =>
    exact .some ((hagree.runUntilFrom breakpoints 0 limit).map fun report ↦ ({
      result := .ok (.stopped report.reason report.executed)
      diagnostics := diagnosis report.fault } : Response))
  | loadProgram bytes origin => exact .some (hagree.loadProgram bytes origin)
  | loadAndRun budget bytes => exact hagree.loadAndRun budget bytes
  | reset => exact .some ⟨rfl, hagree.reset⟩
  | operandAddress mode =>
    exact .some ((hagree.resolveOperand mode).map fun address ↦
      ({ result := (address.map Value.address).mapError .addressing } : Response))
  | clearTimeline => exact .some ⟨rfl, { hagree with }⟩
  | setTrace on => exact .some ⟨rfl, hagree.withSettings hagree.indirect⟩
  | setTraceLimit limit => exact .some ⟨rfl, hagree.withSettings hagree.indirect⟩
  | setIndirect rule => exact .some ⟨rfl, hagree.withSettings rfl⟩
  | writeByte address byte =>
    simp only [Machine.perform, hagree.memory]
    exact .some ⟨rfl, hagree.withMemory _⟩
  | writeWord address value =>
    simp only [Machine.perform, hagree.memory]
    exact .some ⟨rfl, hagree.withMemory _⟩
  | load bytes origin => exact .some (hagree.load bytes origin)
  | clearMemory => exact .some ⟨rfl, hagree.withMemory _⟩

end AgreeBeyondTrace

/-! ### Requests in a row -/

namespace Request

/-- Whether a request is about the trace alone. -/
def isAboutTrace : Request → Bool
  | .setTrace _ | .setTraceLimit _ | .clearTimeline => true
  | _ => false

/-- Whether two requests are the same, or both are about the trace alone. -/
def Corresponds (first second : Request) : Prop :=
  second = first ∨ first.isAboutTrace ∧ second.isAboutTrace

/-- Whether a request is for a run that need not end within its budget. -/
def hasBudget : Request → Bool
  | .run _ | .loadAndRun _ _ => true
  | _ => false

end Request

/-- A request about the trace alone answers nothing. -/
theorem perform_of_isAboutTrace (machine : Machine) {request : Request}
    (htrace : request.isAboutTrace) :
    ∃ next, machine.perform request = some ({}, next) ∧ machine.AgreeBeyondTrace next := by
  cases request with
  | setTrace _ | setTraceLimit _ | clearTimeline => exact ⟨_, rfl, ⟨rfl, rfl, rfl, rfl⟩, rfl⟩
  | _ => cases htrace

theorem exists_perform (machine : Machine) {request : Request} (hbudget : ¬request.hasBudget) :
    ∃ response next, machine.perform request = some (response, next) := by
  cases request with
  | run _ | loadAndRun _ _ => exact absurd rfl hbudget
  | _ => exact ⟨_, _, rfl⟩

/-- All requests are answered if none of them has a budget. -/
theorem length_trail (machine : Machine) {requests : List Request}
    (hbudget : ∀ request ∈ requests, ¬request.hasBudget) :
    (machine.trail requests).length = requests.length := by
  induction requests generalizing machine with
  | nil => rfl
  | cons request rest ih =>
    rw [List.forall_mem_cons] at hbudget
    obtain ⟨response, next, hperform⟩ := machine.exists_perform hbudget.1
    rw [trail, hperform, List.length_cons, List.length_cons, ih next hbudget.2]

namespace AgreeBeyondTrace

variable {first second : Machine} (hagree : first.AgreeBeyondTrace second)
include hagree

theorem perform_of_corresponds {one other : Request} (hcorresponds : one.Corresponds other) :
    Option.Rel Alike (first.perform one) (second.perform other) := by
  rcases hcorresponds with rfl | ⟨hone, hother⟩
  · exact hagree.perform other
  · obtain ⟨next, hnext, hleft⟩ := first.perform_of_isAboutTrace hone
    obtain ⟨last, hlast, hright⟩ := second.perform_of_isAboutTrace hother
    rw [hnext, hlast]
    exact .some ⟨rfl, (hleft.symm.trans hagree).trans hright⟩

theorem trail {firsts seconds : List Request}
    (hrequests : List.Forall₂ Request.Corresponds firsts seconds) :
    List.Forall₂ Alike (first.trail firsts) (second.trail seconds) := by
  induction hrequests generalizing first second with
  | nil => exact .nil
  | cons hcorresponds _ ih =>
    have halike := hagree.perform_of_corresponds hcorresponds
    rw [Machine.trail, Machine.trail]
    generalize first.perform _ = one at halike ⊢
    generalize second.perform _ = other at halike ⊢
    cases halike with
    | none => exact .nil
    | some halike => exact .cons halike (ih halike.machines)

end AgreeBeyondTrace

/-- The trace is transparent: let two machines agree beyond their traces, and get the same requests
but for those about the trace alone. Then they give the same answers, with the same exceptions and
the same diagnostics, and agree beyond their traces after each of them. All requests are answered,
unless one is for a run that uses up its budget. -/
theorem trail_independent_of_trace (first second : Machine)
    (hagree : first.AgreeBeyondTrace second) (firsts seconds : List Request)
    (hrequests : List.Forall₂ Request.Corresponds firsts seconds) :
    List.Forall₂ Alike (first.trail firsts) (second.trail seconds) ∧
      ((∀ request ∈ firsts, ¬request.hasBudget) →
        (first.trail firsts).length = firsts.length) :=
  ⟨hagree.trail hrequests, first.length_trail⟩

/-- A machine without a trace, and one that holds a frame and pending traffic. The one gets a trace,
and the limit of the other is changed, before a run; then the first keeps no frames, and the second
gets no more. A load does not fit, the run ends at a breakpoint, and the step behind it is a
fault. -/
theorem trail_independent_of_trace_of_fault :
    let first : Machine := { settings := { indirect := .legacy } }
    let second : Machine :=
      { settings := { indirect := .legacy, trace := true, traceLimit := 1 }
        timeline := Timeline.empty.push (Frame.of 7 0x0300 0xEA {} [])
        pending := [⟨7, ⟨.read, 0x0301, 0x00, .operand⟩⟩] }
    let program := [0xA9, 0x81, 0x6D, 0x01, 0x02, 0x02]
    let breakpoints := Breakpoints.empty.insert 0x0205
    let firsts : List Request :=
      [.loadProgram program 0xFFFB, .loadProgram program 0x0200, .reset,
        .operandAddress (some .absolute), .setTrace true, .runUntil breakpoints 9,
        .setTraceLimit 0, .tryStep]
    let seconds : List Request :=
      [.loadProgram program 0xFFFB, .loadProgram program 0x0200, .reset,
        .operandAddress (some .absolute), .setTraceLimit 9, .runUntil breakpoints 9,
        .setTrace false, .tryStep]
    first.AgreeBeyondTrace second ∧ List.Forall₂ Request.Corresponds firsts seconds ∧
      (∀ request ∈ firsts, ¬request.hasBudget) ∧
      List.Forall₂ Alike (first.trail firsts) (second.trail seconds) ∧
      (first.trail firsts).length = firsts.length ∧
      (second.trail seconds).flatMap (·.1.diagnostics) =
        ("[bus] program of 6 bytes does not fit at fffb\n" ++
          "[cpu] unsupported opcode 02 at 0205\n").toList ∧
      (first.trail firsts).map (·.2.timeline.length) = [0, 0, 0, 0, 0, 2, 2, 0] ∧
      (second.trail seconds).map (·.2.timeline.length) = [1, 1, 0, 0, 0, 2, 2, 2] := by
  intro first second program breakpoints firsts seconds
  have hagree : first.AgreeBeyondTrace second := ⟨⟨rfl, rfl, rfl, rfl⟩, rfl⟩
  have hrequests : List.Forall₂ Request.Corresponds firsts seconds :=
    .cons (.inl rfl) <| .cons (.inl rfl) <| .cons (.inl rfl) <| .cons (.inl rfl) <|
      .cons (.inr ⟨rfl, rfl⟩) <| .cons (.inl rfl) <| .cons (.inr ⟨rfl, rfl⟩) <|
        .cons (.inl rfl) .nil
  have hbudget : ∀ request ∈ firsts, ¬request.hasBudget := by decide
  obtain ⟨halike, hlength⟩ := trail_independent_of_trace first second hagree _ _ hrequests
  exact ⟨hagree, hrequests, hbudget, halike, hlength hbudget, by decide +kernel,
    by decide +kernel, by decide +kernel⟩

end Machine

end Mos6502
