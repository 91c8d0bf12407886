import Mos6502.Disassembly
import Mos6502.Proofs.Cycle
import Mos6502.Proofs.DumpRoundTrip
import Mos6502.Proofs.EffectiveAddress

/-!
Operands as a listing shows them, read back. An operand has one of nine forms, which tells its
addressing mode, and its digits are a number (`Operand.read`). So much is found in what
`Mode.operandText` writes (`Operand.read_operandText`).

`Machine.addressOf` says which address an operand means to someone who reads a listing, in plain
arithmetic. It is the effective address that the canonical rule gives
(`Machine.addressOf_eq_effectiveAddress`).
-/

set_option autoImplicit false
set_option relaxedAutoImplicit false

namespace Mos6502

/-! ### Reading operands -/

/-- An operand of an instruction: the addressing mode it is written for, and the number in it. -/
structure Operand where
  mode : Mode
  number : Nat
  deriving DecidableEq

/-- The operand of an instruction with the given operand bytes. -/
def Mode.operand (low high : UInt8) (mode : Mode) : Operand :=
  ⟨mode, if mode.operandWidth = 2 then (word low high).toNat else low.toNat⟩

/-- How an operand for a mode is written if all its digits are zeros. -/
def Mode.form : Mode → String
  | .immediate => "#$00"
  | .zeroPage => "$00"
  | .zeroPageX => "$00,X"
  | .zeroPageY => "$00,Y"
  | .absolute => "$0000"
  | .absoluteX => "$0000,X"
  | .absoluteY => "$0000,Y"
  | .indirectX => "($00,X)"
  | .indirectY => "($00),Y"

namespace Operand

/-- The text with a zero in the place of every digit. -/
def form (text : Text) : Text :=
  text.map fun character ↦ if Hex.isDigit character then '0' else character

/-- The operand that a text writes: its form gives the mode, and its digits the number. -/
def read (text : Text) : Option Operand :=
  (Mode.all.find? fun mode ↦ mode.form.toList = form text).map fun mode ↦
    ⟨mode, Hex.value (text.filter Hex.isDigit)⟩

theorem form_cons (character : Char) (text : Text) :
    form (character :: text) = (if Hex.isDigit character then '0' else character) :: form text :=
  rfl

theorem form_append (first second : Text) : form (first ++ second) = form first ++ form second :=
  List.map_append

end Operand

namespace Hex

@[simp] theorem value_byte (byte : UInt8) : value (Hex.byte byte) = byte.toNat :=
  (isNumeral_plain_iff.mp (isNumeral_byte byte)).2.2.2.symm

@[simp] theorem value_word (address : UInt16) : value (word address) = address.toNat :=
  (isNumeral_plain_iff.mp (isNumeral_word address)).2.2.2.symm

end Hex

namespace Operand

theorem form_of_digits {digits : Text} (hdigits : ∀ digit ∈ digits, Hex.isDigit digit = true) :
    form digits = List.replicate digits.length '0' := by
  rw [form, List.map_congr_left fun digit hdigit ↦ if_pos (hdigits digit hdigit)]
  exact List.map_const'

@[simp] theorem form_byte (byte : UInt8) : form (Hex.byte byte) = ['0', '0'] :=
  form_of_digits fun _ ↦ Hex.isDigit_of_mem_byte

@[simp] theorem form_word (address : UInt16) : form (Hex.word address) = ['0', '0', '0', '0'] :=
  form_of_digits fun _ ↦ Hex.isDigit_of_mem_word

@[simp] theorem filter_isDigit_byte (byte : UInt8) :
    (Hex.byte byte).filter Hex.isDigit = Hex.byte byte :=
  List.filter_eq_self.mpr fun _ ↦ Hex.isDigit_of_mem_byte

@[simp] theorem filter_isDigit_word (address : UInt16) :
    (Hex.word address).filter Hex.isDigit = Hex.word address :=
  List.filter_eq_self.mpr fun _ ↦ Hex.isDigit_of_mem_word

theorem form_operandText (low high : UInt8) (mode : Mode) :
    form (mode.operandText low high) = mode.form.toList := by
  cases mode <;>
    simp only [Mode.operandText, form_append, form_cons, form_byte, form_word] <;>
    rfl

theorem value_operandText (low high : UInt8) (mode : Mode) :
    Hex.value ((mode.operandText low high).filter Hex.isDigit) =
      (mode.operand low high).number := by
  have hmarks : Hex.isDigit '#' = false ∧ Hex.isDigit '$' = false ∧ Hex.isDigit ',' = false ∧
      Hex.isDigit 'X' = false ∧ Hex.isDigit 'Y' = false ∧ Hex.isDigit '(' = false ∧
      Hex.isDigit ')' = false := by
    decide
  cases mode <;>
    simp [Mode.operandText, Mode.operand, Mode.operandWidth, hmarks]

/-- What is written for an operand is read as that operand. -/
theorem read_operandText (low high : UInt8) (mode : Mode) :
    read (mode.operandText low high) = some (mode.operand low high) := by
  have hmode : (Mode.all.find? fun other ↦ other.form.toList = mode.form.toList) = some mode := by
    cases mode <;> decide
  rw [read, form_operandText, hmode, Option.map_some, value_operandText]
  rfl

/-- A pointer with an index, and the accumulator, which is a digit but no operand in memory. -/
example : ["($8a,X)", "A"].map (fun text ↦ read text.toList) = [some ⟨.indirectX, 0x8A⟩, none] := by
  decide

end Operand

/-! ### Meaning of operands -/

/-- The word whose low byte is at a place in the zero page, and its high byte at the next place in
that page. -/
def Memory.zeroPageWord (memory : Memory) (place : Nat) : Nat :=
  (memory.read (UInt16.ofNat place)).toNat +
    256 * (memory.read (UInt16.ofNat ((place + 1) % 256))).toNat

theorem Memory.zeroPageWord_toNat (memory : Memory) (pointer : UInt8) :
    memory.zeroPageWord pointer.toNat =
      (word (memory.read pointer.toUInt16) (memory.read (pointer + 1).toUInt16)).toNat := by
  rw [toNat_word, ← memory.byteAt_pointer, ← memory.byteAt_pointer_wrapped]
  rfl

/-- The address that an operand means to a machine whose program counter is at the opcode. An index
stays in the zero page where the number names a place there, and wraps around at the top of memory
otherwise. -/
def Machine.addressOf (machine : Machine) (operand : Operand) : Nat :=
  let number := operand.number
  let x := machine.registers.x.toNat
  let y := machine.registers.y.toNat
  match operand.mode with
  | .immediate => (machine.registers.pc.toNat + 1) % 65536
  | .zeroPage | .absolute => number
  | .zeroPageX => (number + x) % 256
  | .zeroPageY => (number + y) % 256
  | .absoluteX => (number + x) % 65536
  | .absoluteY => (number + y) % 65536
  | .indirectX => machine.memory.zeroPageWord ((number + x) % 256)
  | .indirectY => (machine.memory.zeroPageWord number + y) % 65536

/-- Operands mean the effective addresses of the canonical rule. -/
theorem Machine.addressOf_eq_effectiveAddress (machine : Machine) (mode : Mode) :
    machine.addressOf (mode.operand (machine.memory.read (machine.registers.pc + 1))
        (machine.memory.read (machine.registers.pc + 2))) =
      (mode.effectiveAddress .canonical machine.fetched.registers machine.memory).toNat := by
  have hpc : machine.fetched.registers.pc = machine.registers.pc + 1 := rfl
  have hhigh : machine.registers.pc + 2 = machine.registers.pc + 1 + 1 := by
    rw [UInt16.add_assoc]
    rfl
  have hx : machine.fetched.registers.x = machine.registers.x := rfl
  have hy : machine.fetched.registers.y = machine.registers.y := rfl
  cases mode with
  | immediate | zeroPage | zeroPageX | zeroPageY | absolute | absoluteX | absoluteY =>
    simp [addressOf, Mode.operand, Mode.operandWidth, Mode.effectiveAddress, Memory.readWord,
      hpc, hx, hy, hhigh]
  | indirectX =>
    rw [Mode.effectiveAddress, ← Memory.zeroPageWord_toNat, UInt8.toNat_add]
    rfl
  | indirectY =>
    rw [Mode.effectiveAddress, UInt16.toNat_add, ← Memory.zeroPageWord_toNat]
    simp [addressOf, Mode.operand, Mode.operandWidth, hpc, hy]

end Mos6502
