import Mos6502.Machine
import Mos6502.Breakpoints

/-!
Runs of many instructions. `Machine.run` goes on until the machine stops by itself. A program need
not do so, hence the run is given a budget of steps, and has no result when the budget is used up.
It counts the completed instructions modulo 2^64.

`Machine.runUntil` also stops at breakpoints, and after a given number of instructions. A
breakpoint stops a run in front of its instruction, except where the run begins, so that a run
can leave the breakpoint at which the last one ended.
-/

set_option autoImplicit false
set_option relaxedAutoImplicit false

namespace Mos6502

/-- Why a run ended. -/
inductive StopReason
  | halted
  | faulted
  | breakpoint
  | limit
  deriving DecidableEq

/-- How a run ended: the reason, the number of instructions completed, and the fault, if the run
came upon one. -/
structure RunReport where
  reason : StopReason
  executed : Nat
  fault : Option Fault
  deriving DecidableEq

/-- The reason for a run to end where the processor is in the given state. -/
def RunState.stopReason : RunState → StopReason
  | .running => .limit
  | .halted => .halted
  | .faulted => .faulted

/-- The fault that an outcome tells of. -/
def Outcome.fault? : Outcome → Option Fault
  | .unsupported fault => some fault
  | _ => none

namespace Machine

/-- Runs on with `executed` for the number of instructions completed so far. -/
def runFrom (executed : UInt64) : (budget : Nat) → Machine → Option (Except Fault UInt64 × Machine)
  | 0, _ => none
  | budget + 1, machine =>
      match machine.step with
      | (some .completed, next) => runFrom (executed + 1) budget next
      | (some (.unsupported fault), next) => some (.error fault, next)
      | (some .halted, next) | (none, next) => some (.ok executed, next)

/-- Runs until the machine stops: the number of completed instructions, or the fault that stopped
it. There is no result if the machine still runs after `budget` steps. -/
def run (budget : Nat) (machine : Machine) : Option (Except Fault UInt64 × Machine) :=
  runFrom 0 budget machine

/-- Runs on after `executed` completed instructions, completing at most `remaining` more. -/
def runUntilFrom (breakpoints : Breakpoints) (executed : Nat) :
    (remaining : Nat) → Machine → RunReport × Machine
  | 0, machine => (⟨machine.state.stopReason, executed, none⟩, machine)
  | remaining + 1, machine =>
      if machine.state ≠ .running then (⟨machine.state.stopReason, executed, none⟩, machine)
      else if executed ≠ 0 ∧ breakpoints.contains machine.registers.pc then
        (⟨.breakpoint, executed, none⟩, machine)
      else
        match machine.step with
        | (some .completed, next) => runUntilFrom breakpoints (executed + 1) remaining next
        | (outcome, next) => (⟨next.state.stopReason, executed, outcome.bind Outcome.fault?⟩, next)

/-- Runs until the machine stops, comes to a breakpoint or has completed `limit` instructions. Its
count does not wrap around where the limit is below 2^64. -/
def runUntil (breakpoints : Breakpoints) (limit : Nat) (machine : Machine) :
    RunReport × Machine :=
  runUntilFrom breakpoints 0 limit machine

end Machine

end Mos6502
