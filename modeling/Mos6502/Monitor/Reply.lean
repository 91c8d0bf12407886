import Mos6502.Disassembly
import Mos6502.Image.HexDump
import Mos6502.Machine.Program
import Mos6502.Monitor.Command

/-!
What the monitor says. A `Reply` is one message with the values that it tells, `Reply.text` is its
wording, and `Reply.isDiagnostic` says which replies go to the diagnostics instead of the output.
-/

set_option autoImplicit false
set_option relaxedAutoImplicit false

namespace Mos6502

/-- A message of the monitor. -/
inductive Reply
  | help
  | refused (refusal : Refusal)
  | registers (machine : Machine)
  | breakExecuted (address : UInt16)
  | breakpointHit (address : UInt16)
  | watchdog (executed : Nat)
  | dump (memory : Memory) (base : UInt16) (rows : Nat)
  | wrote (address : UInt16) (byte : UInt8)
  | breakpointAdded (address : UInt16)
  | breakpointList (breakpoints : Breakpoints)
  | breakpointsCleared
  | breakpointCleared (address : UInt16)
  | noFrames
  | frames (shown : List Frame)
  | traceSet (on : Bool)
  | indirectSet (rule : IndirectRule)
  | resetDone
  | listing (memory : Memory) (start : UInt16) (count : Nat)
  | loaded (format : FileFormat) (size : Nat) (base : UInt16)
  | unreadable (format : FileFormat) (path : Text)
  | resetVectorSet (address : UInt16)
  | demoLoaded (origin : UInt16)
  | fault (met : Fault)
  | readFailed (format : FileFormat) (error : ReadError)
  | doesNotFit (error : Memory.LoadError)
  | loadFailed (path : Text)

/-! ### Wording -/

/-- The explanation of the commands. -/
def helpLines : List String := [
  "Commands:",
  "  s                 step one instruction",
  "  r N               run N instructions",
  "  g                 run until halt or breakpoint",
  "  p                 print registers",
  "  m ADDR [ROWS]     dump memory from hex ADDR (default 8 rows of 16)",
  "  w ADDR BYTE       write BYTE at ADDR (both hex)",
  "  b ADDR            add breakpoint at PC==ADDR (hex)",
  "  bl                list breakpoints",
  "  bc [ADDR]         clear breakpoint at ADDR or all if none",
  "  t [K]             show last K trace frames (default 20)",
  "  trace on|off      record bus events per instruction",
  "  mode canonical|legacy   (ind,X)/(ind),Y resolution",
  "  reset             reset CPU from the reset vector and clear trace",
  "  d ADDR [N-instr]  disassemble N instructions starting at address ADDR",
  "  loadhex FILE ADDR       load whitespace-separated hex bytes at ADDR",
  "  loaddump FILE           load an 'AAAA: bb bb ..' dump and point the reset vector at it",
  "  loadbin FILE ADDR       load a raw binary at ADDR",
  "  setrv ADDR        set the reset vector at FFFC",
  "  demo              clear memory and reload the built-in demo program at 8000",
  "  help              this text",
  "  quit              exit"]

/-- Lines, each with a line feed at its end. -/
def unlines (lines : List Text) : Text := lines.flatMap fun line ↦ line ++ ['\n']

/-- The wording of a state. -/
def RunState.describe : RunState → String
  | .running => "running"
  | .halted => "halted"
  | .faulted => "faulted (reset to continue)"

/-- The name by which a rule is chosen. -/
def IndirectRule.name : IndirectRule → String
  | .canonical => "canonical"
  | .legacy => "legacy"

/-- The registers, the flags and the state of a machine in one line. -/
def registerLine (machine : Machine) : Text :=
  let registers := machine.registers
  "PC=".toList ++ Hex.word registers.pc ++ "  A=".toList ++ Hex.byte registers.a ++
    "  X=".toList ++ Hex.byte registers.x ++ "  Y=".toList ++ Hex.byte registers.y ++
    "  SP=".toList ++ Hex.byte registers.sp ++ "  NV1BDIZC=".toList ++ registers.status.digits ++
    "  ".toList ++ machine.state.describe.toList ++ "  steps=".toList ++
    decimal machine.steps.toNat

/-- The line of an access. -/
def eventLine (event : Event) : Text :=
  let access := event.access
  let direction := match access.direction with
    | .read => "RD"
    | .write => "WR"
  "    ".toList ++ direction.toList ++ " [".toList ++ Hex.word access.address ++ "] = ".toList ++
    Hex.byte access.data ++ "  ".toList ++ access.purpose.label.toList

/-- The lines of a frame: the registers after the instruction, then its traffic. -/
def frameLines (frame : Frame) : List Text :=
  let registers := [frame.a, frame.x, frame.y, frame.sp, frame.flags].map Hex.byte
  (decimal frame.step.toNat ++ "  ".toList ++ Hex.word frame.pc ++ "  ".toList ++
    Hex.byte frame.opcode ++ [' '] ++ (mnemonicOf frame.opcode).toList.rightpad 4 ' ' ++
    "  ".toList ++ List.intercalate [' '] registers ++ "  ".toList ++
    (Mode.nameOf (modeOf frame.opcode)).toList ++ "  events:".toList ++
    decimal frame.events.length) :: frame.events.map eventLine

/-- The line that refuses a command. -/
def Refusal.line : Refusal → Text
  | .usage form => "usage: ".toList ++ form.toList
  | .unknown => "Unknown command. Type 'help'.".toList

/-- What follows the size of what was loaded. -/
def loadedAt (format : FileFormat) (base : UInt16) : Text :=
  " bytes at ".toList ++ Hex.word base ++
    match format with
    | .hexDump => ", reset vector updated".toList
    | .binary | .hexBytes => []

/-- The verb for a file that could not be used: a dump is parsed and the others are read. -/
def FileFormat.failedTo : FileFormat → String
  | .hexDump => "failed to parse "
  | .binary | .hexBytes => "failed to read "

namespace Reply

/-- The words of a reply, with the line feeds at the ends of its lines. -/
def text : Reply → Text
  | .help => unlines (helpLines.map String.toList)
  | .refused refusal => unlines [refusal.line]
  | .registers machine => unlines [registerLine machine]
  | .breakExecuted address =>
      unlines ["BRK at ".toList ++ Hex.word address ++ ", halted".toList]
  | .breakpointHit address => unlines ["* Breakpoint hit at PC=".toList ++ Hex.word address]
  | .watchdog executed =>
      unlines ["* watchdog: stopped after ".toList ++ decimal executed ++
        " instructions without BRK".toList]
  | .dump memory base rows => HexDump.write memory base rows
  | .wrote address byte =>
      unlines ["Wrote ".toList ++ Hex.byte byte ++ " to [".toList ++ Hex.word address ++ [']']]
  | .breakpointAdded address => unlines ["Breakpoint added at PC=".toList ++ Hex.word address]
  | .breakpointList breakpoints =>
      if breakpoints.isEmpty then unlines ["(no breakpoints)".toList]
      else unlines (breakpoints.addresses.map fun address ↦ " - ".toList ++ Hex.word address)
  | .breakpointsCleared => unlines ["Breakpoints cleared.".toList]
  | .breakpointCleared address => unlines ["Cleared ".toList ++ Hex.word address]
  | .noFrames => unlines ["(no trace yet, enable with 'trace on')".toList]
  | .frames shown => unlines (shown.flatMap frameLines)
  | .traceSet on => unlines ["Trace ".toList ++ (if on then "on" else "off").toList]
  | .indirectSet rule => unlines ["Indirect addressing: ".toList ++ rule.name.toList]
  | .resetDone => unlines ["Reset done.".toList]
  | .listing memory start count => unlines (Disassembly.lines memory start count)
  | .loaded format size base =>
      unlines ['[' :: format.tag.toList ++ "] loaded ".toList ++ decimal size ++
        loadedAt format base]
  | .unreadable format path =>
      unlines ['[' :: format.tag.toList ++ "] ".toList ++ format.failedTo.toList ++ quoted path]
  | .resetVectorSet address =>
      unlines ["[setrv] reset vector set to ".toList ++ Hex.word address]
  | .demoLoaded origin => unlines ["[demo] loaded at ".toList ++ Hex.word origin]
  | .fault met => unlines ["[cpu] ".toList ++ met.message]
  | .readFailed format error => error.message format
  | .doesNotFit error => error.message
  | .loadFailed path => unlines ["[load] failed to load ".toList ++ quoted path]

/-- Whether a reply is a diagnostic. -/
def isDiagnostic : Reply → Bool
  | .fault _ | .readFailed _ _ | .doesNotFit _ | .loadFailed _ => true
  | _ => false

end Reply

/-- Text for the output and text for the diagnostics. -/
structure Answer where
  out : Text := []
  err : Text := []
  deriving DecidableEq

namespace Answer

instance : Append Answer where
  append first second := ⟨first.out ++ second.out, first.err ++ second.err⟩

/-- The texts of replies, each where it belongs. -/
def ofReplies (replies : List Reply) : Answer where
  out := (replies.filter fun reply ↦ !reply.isDiagnostic).flatMap Reply.text
  err := (replies.filter Reply.isDiagnostic).flatMap Reply.text

end Answer

end Mos6502
