import Mos6502.Image.Binary
import Mos6502.Image.HexBytes
import Mos6502.Monitor.Reply

/-!
The interactive monitor. A `Session` is a machine with a set of breakpoints; `Session.respond`
carries out one command, given the files that there are, and `Session.answer` answers a line as it
is typed.

A file that cannot be read, or does not fit, changes nothing.
-/

set_option autoImplicit false
set_option relaxedAutoImplicit false

namespace Mos6502

/-- A machine under the monitor, with its breakpoints. -/
structure Session where
  machine : Machine
  breakpoints : Breakpoints := Breakpoints.empty

namespace Session

/-- The number of instructions after which the monitor takes back control. -/
def watchdogLimit : Nat := 10000000

/-! ### Running -/

/-- Runs one instruction, and tells when it is the break that halts. -/
def step (session : Session) : List Reply × Session :=
  let (outcome, machine) := session.machine.step
  let told := match outcome with
    | some .halted => [Reply.breakExecuted (machine.registers.pc - 1)]
    | some (.unsupported fault) => [Reply.fault fault]
    | some .completed | none => []
  (told ++ [.registers machine], { session with machine })

/-- What is told of a run that ended at the given program counter; only a run that was not given
a number of instructions has a watchdog. -/
def reportRun (report : RunReport) (watched : Bool) (pc : UInt16) : List Reply :=
  let faults := (report.fault.map Reply.fault).toList
  match report.reason with
  | .breakpoint => faults ++ [.breakpointHit pc]
  | .limit => if watched then faults ++ [.watchdog report.executed] else faults
  | .halted | .faulted => faults

/-- Runs up to a number of instructions. -/
def run (session : Session) (limit : Nat) (watched : Bool) : List Reply × Session :=
  let (report, machine) := session.machine.runUntil session.breakpoints limit
  (reportRun report watched machine.registers.pc ++ [.registers machine],
    { session with machine })

/-! ### Loading -/

/-- Puts the bytes that were read from a file at an address. -/
def place (session : Session) (format : FileFormat) (path : Text) (base : UInt16)
    (reading : Reading (List UInt8)) : List Reply × Session :=
  match reading.error with
  | some error => ([.readFailed format error, .unreadable format path], session)
  | none =>
      match session.machine.memory.load base reading.contents with
      | .error error => ([.doesNotFit error], session)
      | .ok memory =>
          ([.loaded format reading.contents.length base],
            { session with machine := { session.machine with memory } })

/-- Loads the image of a dump as a program. -/
def placeDump (session : Session) (path : Text) (reading : Reading Image) :
    List Reply × Session :=
  match reading.error with
  | some error => ([.readFailed .hexDump error, .unreadable .hexDump path], session)
  | none =>
      let image := reading.contents
      match session.machine.loadProgram image.bytes image.origin with
      | .error error => ([.doesNotFit error], session)
      | .ok machine =>
          ([.loaded .hexDump image.bytes.length image.origin], { session with machine })

/-- Loads the demo program into blank memory and resets the machine. -/
def loadDemo (session : Session) : List Reply × Session :=
  let blank := { session.machine with memory := Memory.blank }
  match blank.loadProgram demoProgram with
  | .error error => ([.doesNotFit error], { session with machine := blank })
  | .ok machine =>
      let machine := machine.reset
      ([.demoLoaded Memory.programOrigin, .registers machine], { session with machine })

/-! ### Commands -/

/-- The last frames of the timeline. -/
def showFrames (session : Session) (count : Nat) : List Reply :=
  let timeline := session.machine.timeline
  if timeline.length = 0 then [.noFrames] else [.frames (timeline.last count)]

/-- Switches the trace. Switching it off forgets the frames. -/
def setTrace (session : Session) (on : Bool) : Session :=
  let machine := if on then session.machine else session.machine.clearTimeline
  { session with machine := { machine with settings := { machine.settings with trace := on } } }

/-- Chooses the rule for the indirect modes. -/
def setIndirect (session : Session) (rule : IndirectRule) : Session :=
  let machine := session.machine
  { session with
    machine := { machine with settings := { machine.settings with indirect := rule } } }

/-- Changes the memory of the machine. -/
def setMemory (session : Session) (memory : Memory) : Session :=
  { session with machine := { session.machine with memory } }

/-- Carries out a command. -/
def respond (files : Files) (session : Session) (command : Command) : List Reply × Session :=
  let machine := session.machine
  match command with
  | .nothing | .quit => ([], session)
  | .help => ([.help], session)
  | .step => session.step
  | .run count => session.run count false
  | .go => session.run watchdogLimit true
  | .registers => ([.registers machine], session)
  | .dump address rows => ([.dump machine.memory address rows], session)
  | .write address byte =>
      ([.wrote address byte], session.setMemory (machine.memory.write address byte))
  | .addBreakpoint address =>
      ([.breakpointAdded address],
        { session with breakpoints := session.breakpoints.insert address })
  | .listBreakpoints => ([.breakpointList session.breakpoints], session)
  | .clearBreakpoints => ([.breakpointsCleared], { session with breakpoints := Breakpoints.empty })
  | .clearBreakpoint address =>
      ([.breakpointCleared address],
        { session with breakpoints := session.breakpoints.erase address })
  | .showFrames count => (session.showFrames count, session)
  | .setTrace on => ([.traceSet on], session.setTrace on)
  | .setIndirect rule => ([.indirectSet rule], session.setIndirect rule)
  | .reset =>
      let machine := machine.reset
      ([.resetDone, .registers machine], { session with machine })
  | .disassemble address count => ([.listing machine.memory address count], session)
  | .loadBinary path base => session.place .binary path base (Binary.fromFile files path [])
  | .loadHexBytes path base => session.place .hexBytes path base (HexBytes.fromFile files path [])
  | .loadDump path => session.placeDump path (HexDump.fromFile files path ⟨0, []⟩)
  | .setResetVector address =>
      ([.resetVectorSet address],
        session.setMemory (machine.memory.writeWord Memory.resetVector address))
  | .demo => session.loadDemo

/-! ### Conversation -/

/-- What stands in front of every line that is typed. -/
def prompt : Answer := { out := "\n> ".toList }

/-- What the monitor says at the beginning. -/
def greeting (session : Session) : Answer :=
  { out := "6502 core monitor (CLI)\nType 'help' for commands.\n\n".toList } ++
    Answer.ofReplies [.registers session.machine] ++ prompt

/-- Answers a line, and prompts for the next one unless the session is over. -/
def answer (files : Files) (session : Session) (line : Text) : Answer × Option Session :=
  match Command.parse line with
  | .error refusal => (Answer.ofReplies [.refused refusal] ++ prompt, some session)
  | .ok .quit => ({}, none)
  | .ok command =>
      let (replies, next) := session.respond files command
      (Answer.ofReplies replies ++ prompt, some next)

/-- The answers to lines, up to the one that ends the session. -/
def converse (files : Files) (session : Session) : List Text → List Answer
  | [] => []
  | line :: rest =>
      match session.answer files line with
      | (answer, none) => [answer]
      | (answer, some next) => answer :: next.converse files rest

end Session

end Mos6502
