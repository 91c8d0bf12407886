import Mos6502.Addressing
import Mos6502.Image

/-!
The commands of the monitor and how they are typed. A command line consists of words; the first
one names the command, in letters of either case, and the rest are arguments. Words beyond the
arguments that a command takes are ignored.

`Command.parse` gives the command that a line stands for, or the reason to refuse it.
-/

set_option autoImplicit false
set_option relaxedAutoImplicit false

namespace Mos6502

/-! ### Integers -/

/-- Keeps an integer within the range of 32 bits. -/
def saturate (value : Int) : Int := max (-2147483648) (min 2147483647 value)

/-- The decimal digits in front of a word, as a number. -/
def leadingNatural (word : Text) : Nat :=
  (word.takeWhile Char.isDigit).foldl
    (fun total digit ↦ 10 * total + (digit.toNat - '0'.toNat)) 0

/-- The integer in front of a word, with or without a sign; zero if there is none. -/
def leadingInteger : Text → Int
  | '-' :: word => saturate (-(leadingNatural word : Int))
  | '+' :: word => saturate (leadingNatural word)
  | word => saturate (leadingNatural word)

/-- A number of repetitions: a missing argument, or one that is not positive, gives the usual
number. -/
def positiveCount (usual : Nat) : Option Text → Nat
  | none => usual
  | some word =>
      let value := leadingInteger word
      if 0 < value then value.toNat else usual

/-! ### Commands -/

/-- What the monitor can be told to do. -/
inductive Command
  | nothing
  | quit
  | help
  | step
  | run (count : Nat)
  | go
  | registers
  | dump (address : UInt16) (rows : Nat)
  | write (address : UInt16) (byte : UInt8)
  | addBreakpoint (address : UInt16)
  | listBreakpoints
  | clearBreakpoints
  | clearBreakpoint (address : UInt16)
  | showFrames (count : Nat)
  | setTrace (on : Bool)
  | setIndirect (rule : IndirectRule)
  | reset
  | disassemble (address : UInt16) (count : Nat)
  | loadBinary (path : Text) (base : UInt16)
  | loadHexBytes (path : Text) (base : UInt16)
  | loadDump (path : Text)
  | setResetVector (address : UInt16)
  | demo
  deriving DecidableEq

/-- The file that a command reads. -/
def Command.path? : Command → Option Text
  | .loadBinary path _ | .loadHexBytes path _ | .loadDump path => some path
  | _ => none

/-- Why a line stands for no command: its arguments are not those that the usage line asks for,
or the name is unknown. -/
inductive Refusal
  | usage (form : String)
  | unknown
  deriving DecidableEq

namespace Command

/-- A command from an argument that may fail to be read. -/
def orUsage {α : Type} (form : String) (argument : Option α) (command : α → Command) :
    Except Refusal Command :=
  match argument with
  | some value => .ok (command value)
  | none => .error (.usage form)

/-- The address in an argument. -/
def addressArgument (argument : Option Text) : Option UInt16 := argument.bind Hex.address?

/-- The byte in an argument: an address below 256. -/
def byteArgument (argument : Option Text) : Option UInt8 :=
  (addressArgument argument).bind fun value ↦
    if value ≤ 0xFF then some value.toUInt8 else none

/-- The command `m`, from its arguments. -/
def parseDump (arguments : List Text) : Except Refusal Command :=
  let rows := match arguments[1]? with
    | none => 8
    | some word => (leadingInteger word).toNat
  orUsage "m ADDR [ROWS]" (addressArgument arguments[0]?) fun address ↦ .dump address rows

/-- The command `w`, from its arguments. -/
def parseWrite (arguments : List Text) : Except Refusal Command :=
  let both := do
    let address ← addressArgument arguments[0]?
    let byte ← byteArgument arguments[1]?
    return (address, byte)
  orUsage "w ADDR BYTE" both fun (address, byte) ↦ .write address byte

/-- The command `bc`, from its arguments. -/
def parseClear (arguments : List Text) : Except Refusal Command :=
  match arguments[0]? with
  | none => .ok .clearBreakpoints
  | some word => orUsage "bc [ADDR]" (Hex.address? word) .clearBreakpoint

/-- The command `trace`, from its arguments. -/
def parseTrace (arguments : List Text) : Except Refusal Command :=
  let switch := match arguments[0]? with
    | some ['o', 'n'] => some true
    | some ['o', 'f', 'f'] => some false
    | _ => none
  orUsage "trace on|off" switch .setTrace

/-- The command `mode`, from its arguments. -/
def parseIndirect (arguments : List Text) : Except Refusal Command :=
  let rule := arguments[0]?.bind fun word ↦
    if word = "canonical".toList then some IndirectRule.canonical
    else if word = "legacy".toList then some IndirectRule.legacy
    else none
  orUsage "mode canonical|legacy" rule .setIndirect

/-- The command `d`, from its arguments. -/
def parseDisassemble (arguments : List Text) : Except Refusal Command :=
  orUsage "d <ADDR-hex> [N-instr]" (addressArgument arguments[0]?) fun address ↦
    .disassemble address (positiveCount 16 arguments[1]?)

/-- A file together with the address where its bytes go. -/
def pathAndBase (arguments : List Text) : Option (Text × UInt16) := do
  let path ← arguments[0]?
  let base ← addressArgument arguments[1]?
  return (path, base)

/-- The command with a name in lower case. -/
def parseNamed (name : String) (arguments : List Text) : Except Refusal Command :=
  match name with
  | "q" | "quit" | "exit" => .ok .quit
  | "help" | "h" | "?" => .ok .help
  | "s" => .ok .step
  | "r" => .ok (.run (positiveCount 1 arguments[0]?))
  | "g" => .ok .go
  | "p" => .ok .registers
  | "m" => parseDump arguments
  | "w" => parseWrite arguments
  | "b" => orUsage "b ADDR" (addressArgument arguments[0]?) .addBreakpoint
  | "bl" => .ok .listBreakpoints
  | "bc" => parseClear arguments
  | "t" => .ok (.showFrames (positiveCount 20 arguments[0]?))
  | "trace" => parseTrace arguments
  | "mode" => parseIndirect arguments
  | "reset" => .ok .reset
  | "d" | "dis" | "disasm" => parseDisassemble arguments
  | "loadbin" =>
      orUsage "loadbin <path> <addr-hex>" (pathAndBase arguments) fun (path, base) ↦
        .loadBinary path base
  | "loadhex" =>
      orUsage "loadhex <path> <addr-hex>" (pathAndBase arguments) fun (path, base) ↦
        .loadHexBytes path base
  | "loaddump" => orUsage "loaddump <path>" arguments[0]? .loadDump
  | "setrv" => orUsage "setrv <addr-hex>" (addressArgument arguments[0]?) .setResetVector
  | "demo" => .ok .demo
  | _ => .error .unknown

/-- The command that a line stands for. -/
def parse (line : Text) : Except Refusal Command :=
  match line.words with
  | [] => .ok .nothing
  | name :: arguments => parseNamed (String.ofList (name.map Char.toLower)) arguments

end Command

end Mos6502
