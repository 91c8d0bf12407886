import Mos6502.Instruction.Decode
import Mos6502.Memory

/-!
Disassembly. A line shows the address of an instruction, a column with its bytes, and the
instruction as assembly language. A byte that stands for no instruction is shown as data.
-/

set_option autoImplicit false
set_option relaxedAutoImplicit false

namespace Mos6502

/-- The operand of a mode as assembly language writes it, where `low` is the first operand byte
and `high` the second, if the mode has two. -/
def Mode.operandText (low high : UInt8) : Mode → Text
  | .immediate => "#$".toList ++ Hex.byte low
  | .zeroPage => '$' :: Hex.byte low
  | .zeroPageX => '$' :: Hex.byte low ++ ",X".toList
  | .zeroPageY => '$' :: Hex.byte low ++ ",Y".toList
  | .absolute => '$' :: Hex.word (word low high)
  | .absoluteX => '$' :: Hex.word (word low high) ++ ",X".toList
  | .absoluteY => '$' :: Hex.word (word low high) ++ ",Y".toList
  | .indirectX => "($".toList ++ Hex.byte low ++ ",X)".toList
  | .indirectY => "($".toList ++ Hex.byte low ++ "),Y".toList

namespace Disassembly

/-- The assembly language of an instruction with the given operand bytes. The shift of the
accumulator names its register. -/
def instructionText (instruction : Instruction) (low high : UInt8) : Text :=
  instruction.mnemonic.toList ++
    match instruction.mode with
    | some mode => ' ' :: mode.operandText low high
    | none => if instruction = .act .asl then " A".toList else []

/-- The assembly language of the instruction at an address. -/
def text (memory : Memory) (address : UInt16) : Text :=
  let opcode := memory.read address
  match decode opcode with
  | none => ".DB $".toList ++ Hex.byte opcode
  | some instruction =>
      instructionText instruction (memory.read (address + 1)) (memory.read (address + 2))

/-- The bytes of an instruction, in a column with room for three. -/
def byteColumn (bytes : List UInt8) : Text :=
  (List.intercalate [' '] (bytes.map Hex.byte)).rightpad 8 ' '

/-- The line for the instruction at an address. -/
def line (memory : Memory) (address : UInt16) : Text :=
  let bytes := memory.readBytes address (instructionLength (memory.read address))
  Hex.word address ++ ":  ".toList ++ byteColumn bytes ++ "   ".toList ++ text memory address

/-- The address behind the instruction at an address, wrapping around at the top. -/
def next (memory : Memory) (address : UInt16) : UInt16 :=
  address + UInt16.ofNat (instructionLength (memory.read address))

/-- The lines for consecutive instructions, the first of which is at `start`. -/
def lines (memory : Memory) (start : UInt16) : (count : Nat) → List Text
  | 0 => []
  | count + 1 => line memory start :: lines memory (next memory start) count

end Disassembly

end Mos6502
