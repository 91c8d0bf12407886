import Mos6502.Monitor.Reply

/-!
The machine as a component: what can be asked of it from outside, and what it gives back. A
`Machine.Request` is one call. `Machine.perform` carries it out and gives a `Machine.Response`: the
value that the caller gets or the exception that is raised, and what is written to the diagnostics
meanwhile. Registers and flags cannot be assigned.

A run without a limit need not end. Its request names a budget of steps, and there is no response
if the budget is used up. `Machine.trail` carries out requests in a row.
-/

set_option autoImplicit false
set_option relaxedAutoImplicit false

namespace Mos6502

namespace Machine

/-- What can be asked of a machine. -/
inductive Request
  | step
  /-- A step that reports a fault instead of raising it. -/
  | tryStep
  | run (budget : Nat)
  | runUntil (breakpoints : Breakpoints) (limit : Nat)
  | loadProgram (bytes : List UInt8) (origin : UInt16)
  | loadAndRun (budget : Nat) (bytes : List UInt8)
  | reset
  | operandAddress (mode : Option Mode)
  | clearTimeline
  | setTrace (on : Bool)
  | setTraceLimit (limit : Nat)
  | setIndirect (rule : IndirectRule)
  | writeByte (address : UInt16) (byte : UInt8)
  | writeWord (address value : UInt16)
  /-- Copies an image into memory without starting it. -/
  | load (bytes : List UInt8) (origin : UInt16)
  | clearMemory

/-- What a caller gets: whether something was done, a number of completed instructions, the same
with the reason for a run to end, or an address. -/
inductive Value
  | nothing
  | truth (done : Bool)
  | count (executed : Nat)
  | stopped (reason : StopReason) (executed : Nat)
  | address (address : UInt16)
  deriving DecidableEq

/-- What is raised in place of a value. -/
inductive Exception
  | unsupported (fault : Fault)
  | addressing (error : AddressingError)
  deriving DecidableEq

/-- The answer to a request. -/
structure Response where
  result : Except Exception Value := .ok .nothing
  diagnostics : Text := []

/-! ### Answers -/

/-- What a step gives back: whether it completed. A fault is raised. -/
def resultOfStep : Option Outcome → Except Exception Value
  | some (.unsupported fault) => .error (.unsupported fault)
  | outcome => .ok (.truth (outcome = some .completed))

/-- What a run gives back, where `value` tells what becomes of the number of completed
instructions. A fault is raised. -/
def resultOfRun (value : UInt64 → Value) : Except Fault UInt64 → Except Exception Value
  | .ok executed => .ok (value executed)
  | .error fault => .error (.unsupported fault)

/-- What is written where a fault is reported. -/
def diagnosis (fault : Option Fault) : Text :=
  (fault.map fun met ↦ (Reply.fault met).text).getD []

/-- The answer to an attempt to load. An image that does not fit is reported, and the machine stays
as it is. -/
def answerLoad (machine : Machine) :
    Except Memory.LoadError Machine → Response × Machine
  | .ok loaded => ({ result := .ok (.truth true) }, loaded)
  | .error error => ({ result := .ok (.truth false), diagnostics := error.message }, machine)

/-! ### Requests -/

/-- The machine with other settings. -/
def withSettings (machine : Machine) (settings : Settings) : Machine := { machine with settings }

/-- The machine with another memory. -/
def withMemory (machine : Machine) (memory : Memory) : Machine := { machine with memory }

/-- Carries out a request: the response, and the machine that it leaves. -/
def perform (machine : Machine) : Request → Option (Response × Machine)
  | .step =>
      let (outcome, next) := machine.step
      some ({ result := resultOfStep outcome }, next)
  | .tryStep =>
      let (outcome, next) := machine.step
      some ({
        result := .ok (.truth (outcome = some .completed))
        diagnostics := diagnosis (outcome.bind Outcome.fault?) }, next)
  | .run budget =>
      (machine.run budget).map fun (result, next) ↦
        ({ result := resultOfRun (fun executed ↦ .count executed.toNat) result }, next)
  | .runUntil breakpoints limit =>
      let (report, next) := machine.runUntil breakpoints limit
      some ({
        result := .ok (.stopped report.reason report.executed)
        diagnostics := diagnosis report.fault }, next)
  | .loadProgram bytes origin =>
      some (machine.answerLoad (machine.loadProgram bytes origin))
  | .loadAndRun budget bytes =>
      match machine.loadAndRun budget bytes with
      | .error error => some (machine.answerLoad (.error error))
      | .ok ended =>
          ended.map fun (result, next) ↦
            ({ result := resultOfRun (fun _ ↦ .truth true) result }, next)
  | .reset => some ({}, machine.reset)
  | .operandAddress mode =>
      let (address, next) := machine.resolveOperand mode
      some ({ result := (address.map Value.address).mapError .addressing }, next)
  | .clearTimeline => some ({}, machine.clearTimeline)
  | .setTrace on => some ({}, machine.withSettings { machine.settings with trace := on })
  | .setTraceLimit limit =>
      some ({}, machine.withSettings { machine.settings with traceLimit := limit })
  | .setIndirect rule =>
      some ({}, machine.withSettings { machine.settings with indirect := rule })
  | .writeByte address byte => some ({}, machine.withMemory (machine.memory.write address byte))
  | .writeWord address value =>
      some ({}, machine.withMemory (machine.memory.writeWord address value))
  | .load bytes origin =>
      some (machine.answerLoad ((machine.memory.load origin bytes).map machine.withMemory))
  | .clearMemory => some ({}, machine.withMemory Memory.blank)

/-- The responses to requests in a row, each with the machine that it leaves. Nothing follows a run
that uses up its budget. -/
def trail (machine : Machine) : List Request → List (Response × Machine)
  | [] => []
  | request :: rest =>
      match machine.perform request with
      | none => []
      | some (response, next) => (response, next) :: next.trail rest

end Machine

end Mos6502
