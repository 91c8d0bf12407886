import Mos6502.Monitor.Session

/-!
The command line. Arguments are judged from left to right, and the first one that asks for help or
is wrong decides before anything is loaded. Otherwise the options settle how the machine is set
up, and the last argument that is not an option names the program.

`CommandLine.start` judges the arguments and loads the program. What follows is a batch run or a
session of the monitor; `CommandLine.transcript` is the whole of what is said then, given the
lines that will be typed.
-/

set_option autoImplicit false
set_option relaxedAutoImplicit false

namespace Mos6502.CommandLine

/-! ### Arguments -/

/-- What the options settle. Without a program the demo is loaded. -/
structure Options where
  settings : Settings := {}
  origin : UInt16 := Memory.programOrigin
  batch : Bool := false
  program : Text := []

/-- What the arguments ask for. -/
inductive Request
  | help
  | badOrigin
  | unknownOption (argument : Text)
  | start (options : Options)

/-- Judges the arguments from left to right, with the options of those before. -/
def judge (options : Options) : List Text → Request
  | [] => .start options
  | argument :: rest =>
      if argument = "-h".toList ∨ argument = "--help".toList then .help
      else if argument = "--legacy-indirect".toList then
        judge { options with settings := { options.settings with indirect := .legacy } } rest
      else if argument = "--trace".toList then
        judge { options with settings := { options.settings with trace := true } } rest
      else if argument = "--run".toList then judge { options with batch := true } rest
      else if argument = "--origin".toList then
        match rest with
        | [] => .badOrigin
        | value :: rest =>
            match Hex.address? value with
            | some origin => judge { options with origin } rest
            | none => .badOrigin
      else if argument.head? = some '-' then .unknownOption argument
      else judge { options with program := argument } rest

/-- What the program is called. -/
def programName : Text := "trace6502".toList

/-- The summary of the arguments. -/
def usage : Text :=
  "usage: ".toList ++ programName ++
    " [--legacy-indirect] [--trace] [--origin HEX] [--run] [PROGRAM]\n".toList ++
    "  PROGRAM  *.hex/*.txt/*.dump address-prefixed dump, otherwise raw binary at --origin\n".toList
    ++ "  --run    execute to BRK, print registers and exit\n".toList

/-! ### Programs -/

/-- Whether a path names a dump, which carries its own origin. -/
def isDump (path : Text) : Bool :=
  [".hex", ".txt", ".dump"].any fun ending ↦ ending.toList.isSuffixOf path

/-- The image that a program file holds, or the complaints about it. -/
def readProgram (files : Files) (path : Text) (origin : UInt16) : Except Reply Image :=
  if isDump path then
    match HexDump.fromFile files path ⟨0, []⟩ with
    | ⟨_, some error⟩ => .error (.readFailed .hexDump error)
    | ⟨image, none⟩ => .ok image
  else
    match Binary.fromFile files path [] with
    | ⟨_, some error⟩ => .error (.readFailed .binary error)
    | ⟨bytes, none⟩ => .ok ⟨origin, bytes⟩

/-- Loads an image as a program, or complains that it does not fit. -/
def loadImage (machine : Machine) (image : Image) : Except Reply Machine :=
  match machine.loadProgram image.bytes image.origin with
  | .ok machine => .ok machine
  | .error error => .error (.doesNotFit error)

/-- The machine as it starts, with its program loaded, or the complaints. -/
def prepare (files : Files) (options : Options) : Except (List Reply) Machine :=
  let machine : Machine := { settings := options.settings }
  let image := if options.program.isEmpty then .ok ⟨Memory.programOrigin, demoProgram⟩
    else readProgram files options.program options.origin
  match image.bind (loadImage machine) with
  | .ok machine => .ok machine.reset
  | .error complaint =>
      .error (if options.program.isEmpty then [complaint]
        else [complaint, .loadFailed options.program])

/-! ### Starting -/

/-- What follows from the arguments: the end with a status, a batch run, or the monitor. -/
inductive Start
  | exit (status : Nat) (answer : Answer)
  | batch (machine : Machine)
  | monitor (session : Session)

/-- The file that holds the program, if the arguments name one. -/
def path? (arguments : List Text) : Option Text :=
  match judge {} arguments with
  | .start options => if options.program.isEmpty then none else some options.program
  | _ => none

/-- Judges the arguments and loads the program. -/
def start (files : Files) (arguments : List Text) : Start :=
  match judge {} arguments with
  | .help => .exit 0 { out := usage }
  | .badOrigin => .exit 1 { err := "[args] --origin needs a hex address\n".toList }
  | .unknownOption argument =>
      .exit 1 {
        out := usage
        err := "[args] unknown option ".toList ++ quoted argument ++ ['\n'] }
  | .start options =>
      match prepare files options with
      | .error complaints => .exit 1 (Answer.ofReplies complaints)
      | .ok machine => if options.batch then .batch machine else .monitor { machine }

/-- The status and the words at the end of a batch run. -/
def batchEnd : Except Fault UInt64 × Machine → Nat × Answer
  | (.ok _, machine) => (0, Answer.ofReplies [.registers machine])
  | (.error fault, machine) => (2, Answer.ofReplies [.fault fault, .registers machine])

/-- The status with which the program ends, and what it says before the first line is read and
after each line. There is none for a batch run that still goes on after `budget` steps. -/
def transcript (budget : Nat) (files : Files) (arguments lines : List Text) :
    Option (Nat × List Answer) :=
  match start files arguments with
  | .exit status answer => some (status, [answer])
  | .batch machine => do
      let ended ← machine.run budget
      let (status, answer) := batchEnd ended
      return (status, [answer])
  | .monitor session => some (0, session.greeting :: session.converse files lines)

end Mos6502.CommandLine
