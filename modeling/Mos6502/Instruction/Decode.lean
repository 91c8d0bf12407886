import Mos6502.Instruction

/-!
Opcodes. An opcode consists of three fields: its two lowest bits choose a group of instructions,
the three bits above them the addressing, and the three highest bits the operation. The group with
the lowest bits `01` works on the accumulator and has eight regular modes; the groups `10` and
`00` hold the index registers, the shift and everything implied. All other opcodes stand for no
instruction.

`decode_injective` says that no instruction has two opcodes.
-/

set_option autoImplicit false
set_option relaxedAutoImplicit false

namespace Mos6502

namespace Opcode

/-- The addressing modes of the accumulator group, by addressing field. -/
def accumulatorMode : Nat → Mode
  | 0 => .indirectX
  | 1 => .zeroPage
  | 2 => .immediate
  | 3 => .absolute
  | 4 => .indirectY
  | 5 => .zeroPageX
  | 6 => .absoluteY
  | _ => .absoluteX

/-- The group `01`, by operation field. Nothing can be stored into an immediate operand. -/
def accumulatorGroup (operation : Nat) (mode : Mode) : Option Instruction :=
  match operation with
  | 0 => some (.operate .ora mode)
  | 1 => some (.operate .and mode)
  | 2 => some (.operate .eor mode)
  | 3 => some (.operate .adc mode)
  | 4 => if mode = .immediate then none else some (.store .sta mode)
  | 5 => some (.operate .lda mode)
  | 7 => some (.operate .sbc mode)
  | _ => none

/-- The group `10`, by operation and addressing field. -/
def xGroup (operation addressing : Nat) : Option Instruction :=
  match operation, addressing with
  | 0, 1 => some (.shift .zeroPage)
  | 0, 2 => some (.act .asl)
  | 0, 3 => some (.shift .absolute)
  | 0, 5 => some (.shift .zeroPageX)
  | 0, 7 => some (.shift .absoluteX)
  | 4, 1 => some (.store .stx .zeroPage)
  | 4, 2 => some (.act (.transfer .txa))
  | 4, 3 => some (.store .stx .absolute)
  | 4, 5 => some (.store .stx .zeroPageY)
  | 4, 6 => some (.act (.transfer .txs))
  | 5, 0 => some (.operate .ldx .immediate)
  | 5, 1 => some (.operate .ldx .zeroPage)
  | 5, 2 => some (.act (.transfer .tax))
  | 5, 3 => some (.operate .ldx .absolute)
  | 5, 5 => some (.operate .ldx .zeroPageY)
  | 5, 6 => some (.act (.transfer .tsx))
  | 5, 7 => some (.operate .ldx .absoluteY)
  | 7, 2 => some (.act .nop)
  | _, _ => none

/-- The group `00`, by operation and addressing field. -/
def yGroup (operation addressing : Nat) : Option Instruction :=
  match operation, addressing with
  | 0, 0 => some .brk
  | 1, 6 => some (.act .sec)
  | 3, 6 => some (.act .sei)
  | 4, 1 => some (.store .sty .zeroPage)
  | 4, 3 => some (.store .sty .absolute)
  | 4, 5 => some (.store .sty .zeroPageX)
  | 4, 6 => some (.act (.transfer .tya))
  | 5, 0 => some (.operate .ldy .immediate)
  | 5, 1 => some (.operate .ldy .zeroPage)
  | 5, 2 => some (.act (.transfer .tay))
  | 5, 3 => some (.operate .ldy .absolute)
  | 5, 5 => some (.operate .ldy .zeroPageX)
  | 5, 7 => some (.operate .ldy .absoluteX)
  | 7, 6 => some (.act .sed)
  | _, _ => none

end Opcode

/-- The instruction that an opcode stands for. -/
def decode (opcode : UInt8) : Option Instruction :=
  let operation := opcode.toNat / 32
  let addressing := opcode.toNat / 4 % 8
  match opcode.toNat % 4 with
  | 0 => Opcode.yGroup operation addressing
  | 1 => Opcode.accumulatorGroup operation (Opcode.accumulatorMode addressing)
  | 2 => Opcode.xGroup operation addressing
  | _ => none

/-- The number of bytes at an opcode; an opcode that stands for no instruction is one byte. -/
def instructionLength (opcode : UInt8) : Nat :=
  match decode opcode with
  | none => 1
  | some instruction => instruction.length

/-- The mnemonic of an opcode, question marks where there is no instruction. -/
def mnemonicOf (opcode : UInt8) : String :=
  match decode opcode with
  | none => "???"
  | some instruction => instruction.mnemonic

/-- The addressing mode of an opcode; there is none where there is no instruction. -/
def modeOf (opcode : UInt8) : Option Mode := (decode opcode).bind Instruction.mode

/-- The opcode of an instruction, if it has one. -/
def Instruction.opcode? (instruction : Instruction) : Option UInt8 :=
  ((List.range 256).map UInt8.ofNat).find? fun opcode ↦ decode opcode = some instruction

/-- Every instruction is found again by its opcode. -/
theorem opcode?_decode : ∀ code : Fin 256,
    ∀ instruction ∈ decode (UInt8.ofNat code), instruction.opcode? = some (UInt8.ofNat code) := by
  decide +kernel

/-- No instruction has two opcodes. -/
theorem decode_injective {first second : UInt8} {instruction : Instruction}
    (firstDecodes : decode first = some instruction)
    (secondDecodes : decode second = some instruction) : first = second := by
  have code (opcode : UInt8) (decodes : decode opcode = some instruction) :
      instruction.opcode? = some opcode := by
    have found := opcode?_decode ⟨opcode.toNat, opcode.toNat_lt⟩
    simp only [UInt8.ofNat_toNat] at found
    exact found instruction decodes
  exact Option.some.inj ((code first firstDecodes).symm.trans (code second secondDecodes))

end Mos6502
