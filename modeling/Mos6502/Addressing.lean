import Mos6502.Bus
import Mos6502.Registers

/-!
Effective addresses: where the byte is that an instruction works on. `Mode.resolve` reads the
operand bytes, and the pointer where there is one, over the bus; the program counter stands at the
first operand byte.

The two indirect modes follow one of two rules. In the canonical rule a pointer lies in the zero
page, and its second byte wraps around to the start of the page. The legacy rule reads two whole
words for a pointer, without that wrap, and takes the operand of `(indirect),Y` for an absolute
base.

`Mode.effectiveAddress` gives the same addresses as formulas over the memory, which is left alone
(`Mode.run_resolve`).
-/

set_option autoImplicit false
set_option relaxedAutoImplicit false

namespace Mos6502

/-- The rule by which the two indirect modes find their address. -/
inductive IndirectRule
  | canonical
  | legacy
  deriving DecidableEq

namespace Mode

variable {α : Type}

/-- Reads what it takes to know the effective address, and goes on with that address. -/
def resolve (rule : IndirectRule) (registers : Registers) (mode : Mode)
    (next : UInt16 → BusProgram α) : BusProgram α :=
  match mode with
  | .immediate => next registers.pc
  | .zeroPage => .read registers.pc .operand fun operand ↦ next operand.toUInt16
  | .zeroPageX =>
      .read registers.pc .operand fun operand ↦ next (operand + registers.x).toUInt16
  | .zeroPageY =>
      .read registers.pc .operand fun operand ↦ next (operand + registers.y).toUInt16
  | .absolute => .readWord registers.pc .operand next
  | .absoluteX => .readWord registers.pc .operand fun base ↦ next (base + registers.x.toUInt16)
  | .absoluteY => .readWord registers.pc .operand fun base ↦ next (base + registers.y.toUInt16)
  | .indirectX =>
      .read registers.pc .operand fun operand ↦
        let pointer := operand + registers.x
        match rule with
        | .canonical =>
            .read pointer.toUInt16 .pointerLow fun low ↦
              .read (pointer + 1).toUInt16 .pointerHigh fun high ↦ next (word low high)
        | .legacy =>
            .readWord (pointer + 1).toUInt16 .pointer fun high ↦
              .readWord pointer.toUInt16 .pointer fun low ↦ next (high <<< 8 ||| low)
  | .indirectY =>
      match rule with
      | .canonical =>
          .read registers.pc .operand fun pointer ↦
            .read pointer.toUInt16 .pointerLow fun low ↦
              .read (pointer + 1).toUInt16 .pointerHigh fun high ↦
                next (word low high + registers.y.toUInt16)
      | .legacy =>
          .read (registers.pc + 1) .operandHigh fun high ↦
            .read registers.pc .operandLow fun low ↦
              next (word low high + registers.y.toUInt16)

/-- The effective address as a formula over the memory. -/
def effectiveAddress (rule : IndirectRule) (registers : Registers) (memory : Memory) :
    Mode → UInt16
  | .immediate => registers.pc
  | .zeroPage => (memory.read registers.pc).toUInt16
  | .zeroPageX => (memory.read registers.pc + registers.x).toUInt16
  | .zeroPageY => (memory.read registers.pc + registers.y).toUInt16
  | .absolute => memory.readWord registers.pc
  | .absoluteX => memory.readWord registers.pc + registers.x.toUInt16
  | .absoluteY => memory.readWord registers.pc + registers.y.toUInt16
  | .indirectX =>
      let pointer := memory.read registers.pc + registers.x
      let low := memory.read pointer.toUInt16
      let high := memory.read (pointer + 1).toUInt16
      match rule with
      | .canonical => word low high
      | .legacy => word low (high ||| memory.read (pointer.toUInt16 + 1))
  | .indirectY =>
      match rule with
      | .canonical =>
          let pointer := memory.read registers.pc
          word (memory.read pointer.toUInt16) (memory.read (pointer + 1).toUInt16) +
            registers.y.toUInt16
      | .legacy => memory.readWord registers.pc + registers.y.toUInt16

/-- A word shifted by one byte keeps only its low byte, as the high one, so that putting it over
another word touches the high byte alone. -/
theorem shiftLeft_word_or_word (first second low high : UInt8) :
    word first second <<< 8 ||| word low high = word low (first ||| high) := by
  have overflows : second.toUInt16 <<< 8 <<< 8 = 0 := by
    have finite : ∀ code : Fin 256, (UInt8.ofNat code).toUInt16 <<< 8 <<< 8 = 0 := by
      decide +kernel
    simpa using finite ⟨second.toNat, second.toNat_lt⟩
  simp only [word, UInt16.shiftLeft_or, overflows, UInt16.or_zero, UInt8.toUInt16_or]
  ac_rfl

/-- Resolving a mode finds the effective address and leaves the memory as it was. -/
theorem run_resolve (rule : IndirectRule) (registers : Registers) (mode : Mode)
    (next : UInt16 → BusProgram α) (memory : Memory) :
    (mode.resolve rule registers next).run memory =
      (next (mode.effectiveAddress rule registers memory)).run memory := by
  cases mode <;> cases rule <;>
    simp [resolve, effectiveAddress, BusProgram.run, Memory.readWord, shiftLeft_word_or_word]

end Mode

end Mos6502
