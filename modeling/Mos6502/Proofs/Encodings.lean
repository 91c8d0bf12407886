import Mos6502.Instruction.Decode

/-!
The encodings as a table, one line for each instruction with its opcodes by mode. Decoding by the
fields of an opcode finds exactly the instructions of the table (`decode_eq_some_iff`).
-/

set_option autoImplicit false
set_option relaxedAutoImplicit false

namespace Mos6502

namespace Opcode

/-- The encodings of an instruction in several modes. -/
def inModes (instruction : Mode → Instruction) (codes : List (Mode × UInt8)) :
    List (UInt8 × Instruction) :=
  codes.map fun (mode, opcode) ↦ (opcode, instruction mode)

/-- The opcodes of all instructions that have an addressing mode. -/
def addressed : List (UInt8 × Instruction) :=
  inModes (.operate .adc) [(.immediate, 0x69), (.zeroPage, 0x65), (.zeroPageX, 0x75),
    (.absolute, 0x6D), (.absoluteX, 0x7D), (.absoluteY, 0x79), (.indirectX, 0x61),
    (.indirectY, 0x71)] ++
  inModes (.operate .sbc) [(.immediate, 0xE9), (.zeroPage, 0xE5), (.zeroPageX, 0xF5),
    (.absolute, 0xED), (.absoluteX, 0xFD), (.absoluteY, 0xF9), (.indirectX, 0xE1),
    (.indirectY, 0xF1)] ++
  inModes (.operate .and) [(.immediate, 0x29), (.zeroPage, 0x25), (.zeroPageX, 0x35),
    (.absolute, 0x2D), (.absoluteX, 0x3D), (.absoluteY, 0x39), (.indirectX, 0x21),
    (.indirectY, 0x31)] ++
  inModes (.operate .ora) [(.immediate, 0x09), (.zeroPage, 0x05), (.zeroPageX, 0x15),
    (.absolute, 0x0D), (.absoluteX, 0x1D), (.absoluteY, 0x19), (.indirectX, 0x01),
    (.indirectY, 0x11)] ++
  inModes (.operate .eor) [(.immediate, 0x49), (.zeroPage, 0x45), (.zeroPageX, 0x55),
    (.absolute, 0x4D), (.absoluteX, 0x5D), (.absoluteY, 0x59), (.indirectX, 0x41),
    (.indirectY, 0x51)] ++
  inModes .shift [(.zeroPage, 0x06), (.zeroPageX, 0x16), (.absolute, 0x0E), (.absoluteX, 0x1E)] ++
  inModes (.operate .lda) [(.immediate, 0xA9), (.zeroPage, 0xA5), (.zeroPageX, 0xB5),
    (.absolute, 0xAD), (.absoluteX, 0xBD), (.absoluteY, 0xB9), (.indirectX, 0xA1),
    (.indirectY, 0xB1)] ++
  inModes (.operate .ldx) [(.immediate, 0xA2), (.zeroPage, 0xA6), (.zeroPageY, 0xB6),
    (.absolute, 0xAE), (.absoluteY, 0xBE)] ++
  inModes (.operate .ldy) [(.immediate, 0xA0), (.zeroPage, 0xA4), (.zeroPageX, 0xB4),
    (.absolute, 0xAC), (.absoluteX, 0xBC)] ++
  inModes (.store .sta) [(.zeroPage, 0x85), (.zeroPageX, 0x95), (.absolute, 0x8D),
    (.absoluteX, 0x9D), (.absoluteY, 0x99), (.indirectX, 0x81), (.indirectY, 0x91)] ++
  inModes (.store .stx) [(.zeroPage, 0x86), (.zeroPageY, 0x96), (.absolute, 0x8E)] ++
  inModes (.store .sty) [(.zeroPage, 0x84), (.zeroPageX, 0x94), (.absolute, 0x8C)]

/-- The opcodes of all instructions without an addressing mode. -/
def implied : List (UInt8 × Instruction) :=
  [(0x0A, .act .asl), (0xAA, .act (.transfer .tax)), (0xA8, .act (.transfer .tay)),
    (0xBA, .act (.transfer .tsx)), (0x8A, .act (.transfer .txa)), (0x9A, .act (.transfer .txs)),
    (0x98, .act (.transfer .tya)), (0x38, .act .sec), (0xF8, .act .sed), (0x78, .act .sei),
    (0xEA, .act .nop), (0x00, .brk)]

/-- All opcodes that stand for an instruction. -/
def encodings : List (UInt8 × Instruction) := addressed ++ implied

/-- Each opcode that stands for an instruction is listed with it. -/
theorem decode_mem_encodings : ∀ code : Fin 256, ∀ instruction ∈ decode (UInt8.ofNat code),
    (UInt8.ofNat code, instruction) ∈ encodings := by
  decide +kernel

/-- Each opcode that is listed stands for its instruction. -/
theorem decode_of_mem_encodings : ∀ entry ∈ encodings, decode entry.1 = some entry.2 := by
  decide +kernel

end Opcode

/-- An opcode stands for an instruction exactly if the table lists it so. -/
theorem decode_eq_some_iff {opcode : UInt8} {instruction : Instruction} :
    decode opcode = some instruction ↔ (opcode, instruction) ∈ Opcode.encodings := by
  constructor
  · intro hdecode
    have hlisted := Opcode.decode_mem_encodings ⟨opcode.toNat, opcode.toNat_lt⟩ instruction
    rw [UInt8.ofNat_toNat] at hlisted
    exact hlisted hdecode
  · intro hlisted
    exact Opcode.decode_of_mem_encodings _ hlisted

theorem decode_eq_brk_iff {opcode : UInt8} : decode opcode = some .brk ↔ opcode = 0x00 :=
  ⟨fun hdecode ↦ decode_injective hdecode rfl, fun hopcode ↦ hopcode ▸ rfl⟩

/-- There are eighty-seven opcodes that stand for an instruction. -/
example : Opcode.encodings.length = 87 := by decide

end Mos6502
