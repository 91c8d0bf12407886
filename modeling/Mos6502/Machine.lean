import Mos6502.Execution
import Mos6502.Timeline

/-!
The machine: a processor with its memory, its settings and the timeline of what it did.

`Machine.step` runs one instruction. A machine that was halted by a break, or stopped by a fault,
fetches nothing more until it is reset. `Machine.reset` starts it at the address that the reset
vector holds.
-/

set_option autoImplicit false
set_option relaxedAutoImplicit false

namespace Mos6502

/-- Whether the processor runs, and if not, why. -/
inductive RunState
  | running
  | halted
  | faulted
  deriving DecidableEq

/-- What can be chosen about a machine. -/
structure Settings where
  indirect : IndirectRule := .canonical
  /-- Whether every instruction adds a frame to the timeline. -/
  trace : Bool := false
  /-- The number of frames that the timeline may hold. -/
  traceLimit : Nat := 4096
  deriving DecidableEq

/-- A processor with its memory, its settings and the timeline of what it did. -/
structure Machine where
  registers : Registers := {}
  memory : Memory := Memory.blank
  state : RunState := .running
  /-- The number of opcodes fetched since the last reset. -/
  steps : UInt64 := 0
  settings : Settings := {}
  timeline : Timeline := Timeline.empty
  /-- Traffic in front of the next opcode, from addresses that were asked for. The step that fetches
  the opcode drops it. -/
  pending : List Event := []

/-- The state of the processor after a turn of it. -/
def Outcome.state : Outcome → RunState
  | .completed => .running
  | .halted => .halted
  | .unsupported _ => .faulted

/-- A machine cannot be set up without a memory. -/
inductive SetupError
  | noMemory
  deriving DecidableEq

/-- The wording of a setup error. -/
def SetupError.message : SetupError → Text
  | .noMemory => "CPU requires a bus".toList

/-- An instruction without an addressing mode has no operand address. -/
inductive AddressingError
  | impliedMode
  deriving DecidableEq

/-- The wording of an addressing error. -/
def AddressingError.message : AddressingError → Text
  | .impliedMode => "implied addressing has no operand address".toList

namespace Machine

/-- A machine as it stands when power comes on, around a memory. -/
def ofMemory (settings : Settings) : Option Memory → Except SetupError Machine
  | none => .error .noMemory
  | some memory => .ok { memory, settings }

/-- Starts at the address in the reset vector, with an empty timeline. The accumulator, the index
registers, most flags and all memory stay as they are. -/
def reset (machine : Machine) : Machine :=
  { machine with
    registers :=
      { machine.registers with
        sp := stackTop
        pc := machine.memory.readWord Memory.resetVector
        status := { machine.registers.status with interruptDisable := true, breakMark := false } }
    state := .running
    steps := 0
    timeline := Timeline.empty
    pending := [] }

/-- Runs one instruction and tells how it ended. A machine that does not run stays as it is. -/
def step : Machine → Option Outcome × Machine
  | { registers, memory, state := .running, steps, settings, timeline, pending := _ } =>
      let cycle := instructionCycle settings.indirect registers
      let steps := steps + 1
      if settings.trace then
        let pc := registers.pc
        let opcode := memory.read pc
        let (accesses, (outcome, registers), memory) := cycle.observe memory
        let frame := Frame.of steps pc opcode registers accesses
        let timeline := timeline.record settings.traceLimit frame
        (some outcome, { registers, memory, state := outcome.state, steps, settings, timeline })
      else
        let ((outcome, registers), memory) := cycle.run memory
        (some outcome, { registers, memory, state := outcome.state, steps, settings, timeline })
  | stopped => (none, stopped)

/-- A machine that does not run stays as it is. -/
theorem step_of_stopped (machine : Machine) (stopped : machine.state ≠ .running) :
    machine.step = (none, machine) := by
  obtain ⟨registers, memory, state, steps, settings, timeline, pending⟩ := machine
  cases state
  · exact absurd rfl stopped
  · rfl
  · rfl

/-- A step of a running machine is a turn of its processor, and leaves a frame if there is a
trace. -/
theorem step_of_running (machine : Machine) (running : machine.state = .running) :
    machine.step =
      let cycle := instructionCycle machine.settings.indirect machine.registers
      let ((outcome, registers), memory) := cycle.run machine.memory
      let pc := machine.registers.pc
      let frame := Frame.of (machine.steps + 1) pc (machine.memory.read pc) registers
        (cycle.accesses machine.memory)
      let timeline :=
        if machine.settings.trace then
          machine.timeline.record machine.settings.traceLimit frame
        else machine.timeline
      (some outcome,
        { registers, memory, state := outcome.state, steps := machine.steps + 1,
          settings := machine.settings, timeline }) := by
  obtain ⟨registers, memory, state, steps, settings, timeline, pending⟩ := machine
  cases running
  simp only [step, BusProgram.observe_eq]
  split <;> rfl

/-- Asks for the effective address of a mode, with the program counter at the first operand byte.
If there is a trace, the traffic that this takes is kept. -/
def resolveOperand (machine : Machine) : Option Mode → Except AddressingError UInt16 × Machine
  | none => (.error .impliedMode, machine)
  | some mode =>
      let program := mode.resolve machine.settings.indirect machine.registers .done
      let (accesses, address, memory) := program.observe machine.memory
      let pending :=
        if machine.settings.trace then
          machine.pending ++ accesses.map (Event.mk machine.steps)
        else machine.pending
      (.ok address, { machine with memory, pending })

/-- The effective address of a mode, with the program counter at the first operand byte. -/
def operandAddress (machine : Machine) (mode : Option Mode) : Except AddressingError UInt16 :=
  (machine.resolveOperand mode).1

/-- Forgets all frames. -/
def clearTimeline (machine : Machine) : Machine :=
  { machine with timeline := Timeline.empty }

end Machine

end Mos6502
