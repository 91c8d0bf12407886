import Mos6502.Status

/-!
The registers of the processor, and the register transfers that set flags.
-/

set_option autoImplicit false
set_option relaxedAutoImplicit false

namespace Mos6502

/-- The registers of one byte. -/
inductive Register
  | a
  | x
  | y
  | sp
  deriving DecidableEq

/-- Where the stack pointer stands after power-on and after a reset. -/
def stackTop : UInt8 := 0xFD

/-- All registers, as they stand when power comes on. -/
structure Registers where
  a : UInt8 := 0
  x : UInt8 := 0
  y : UInt8 := 0
  pc : UInt16 := 0
  sp : UInt8 := stackTop
  status : Status := {}
  deriving DecidableEq

namespace Registers

/-- The byte in a register. -/
def get (registers : Registers) : Register → UInt8
  | .a => registers.a
  | .x => registers.x
  | .y => registers.y
  | .sp => registers.sp

/-- Puts a byte into a register, and changes nothing else. -/
def set (registers : Registers) (register : Register) (byte : UInt8) : Registers :=
  match register with
  | .a => { registers with a := byte }
  | .x => { registers with x := byte }
  | .y => { registers with y := byte }
  | .sp => { registers with sp := byte }

/-- Puts a result into a register and lets the zero and negative flags tell its value. -/
def setResult (registers : Registers) (register : Register) (result : UInt8) : Registers :=
  let registers := registers.set register result
  { registers with status := registers.status.withResult result }

/-- Moves the program counter forward, wrapping around at the top. -/
def advance (registers : Registers) (count : Nat) : Registers :=
  { registers with pc := registers.pc + UInt16.ofNat count }

/-- The accumulator and a byte added, with room for a ninth bit. -/
def partialSum (registers : Registers) (operand : UInt8) : UInt16 :=
  registers.a.toUInt16 + operand.toUInt16

/-- The low byte of the partial sum and the carry added, again with room for a ninth bit. -/
def carriedSum (registers : Registers) (operand : UInt8) : UInt16 :=
  (registers.partialSum operand &&& 0xFF) + (if registers.status.carry then 1 else 0)

/-- Adds a byte and the carry to the accumulator, one after the other. The carry flag tells whether
one of the two sums has a ninth bit, and the overflow flag whether the result is wrong as a signed
number. -/
def addWithCarry (registers : Registers) (operand : UInt8) : Registers :=
  let result := (registers.carriedSum operand).toUInt8
  let carry : Bool := 0xFF < registers.partialSum operand || 0xFF < registers.carriedSum operand
  let status := (registers.status.withCarry carry).withOverflow registers.a operand result
  { registers with status }.setResult .a result

theorem get_set (registers : Registers) (register other : Register) (byte : UInt8) :
    (registers.set register byte).get other =
      if register = other then byte else registers.get other := by
  cases register <;> cases other <;> rfl

end Registers

end Mos6502
