import Mos6502.Proofs.Encodings
import Mos6502.Proofs.Listing

/-!
The text of an instruction, assembled. The mnemonic of an instruction and its addressing mode tell
its opcode (`Assembly.opcode?_of_decode`), and the number in the operand tells the bytes behind.
So `Assembly.assemble` finds in a line of a listing, behind the columns of the address and the
bytes, just the bytes that the instruction has in memory (`Assembly.assemble_text`).

The text says no more than that, for it depends on the bytes of the instruction alone
(`Disassembly.text_eq_of_bytes`). `Assembly.text_identifies_bytes` puts the two together.
-/

set_option autoImplicit false
set_option relaxedAutoImplicit false

namespace Mos6502

/-- Bytes in a row are the same in two places exactly if there are as many, and each of them is. -/
theorem Memory.readBytes_eq_iff {first second : Memory} {here there : UInt16} {count other : Nat} :
    first.readBytes here count = second.readBytes there other ↔
      count = other ∧ ∀ offset < count,
        first.read (here + UInt16.ofNat offset) = second.read (there + UInt16.ofNat offset) := by
  constructor
  · intro hsame
    have hcount := congrArg List.length hsame
    rw [length_readBytes, length_readBytes] at hcount
    subst hcount
    refine ⟨rfl, fun offset hoffset ↦ ?_⟩
    have hbyte := congrArg (·[offset]?) hsame
    simpa only [getElem?_readBytes hoffset, Option.some.injEq] using hbyte
  · rintro ⟨rfl, hsame⟩
    exact List.map_congr_left fun offset hoffset ↦ hsame offset (List.mem_range.mp hoffset)

theorem lowByte_word (low high : UInt8) : lowByte (word low high) = low := by
  have hlow := low.toNat_lt
  rw [← UInt8.toNat_inj, toNat_lowByte, toNat_word]
  omega

theorem highByte_word (low high : UInt8) : highByte (word low high) = high := by
  have hlow := low.toNat_lt
  rw [← UInt8.toNat_inj, toNat_highByte, toNat_word]
  omega

namespace Assembly

open Disassembly

/-! ### An assembler -/

/-- The text of the instruction in a line of a listing: what follows the column of the address,
which takes seven characters, and the column of the bytes, which takes eleven. -/
def instructionIn (line : Text) : Text := line.drop 18

/-- The opcode that has a mnemonic in a mode. -/
def opcode? (mnemonic : Text) (mode : Option Mode) : Option UInt8 :=
  (Opcode.encodings.find? fun (_, instruction) ↦
    instruction.mode = mode ∧ instruction.mnemonic.toList = mnemonic).map Prod.fst

/-- The bytes of an operand. A word has its low byte first. -/
def operandBytes (operand : Operand) : List UInt8 :=
  if operand.mode.operandWidth = 2 then
    [lowByte (UInt16.ofNat operand.number), highByte (UInt16.ofNat operand.number)]
  else [UInt8.ofNat operand.number]

/-- The bytes that a text stands for: a byte of data, or an opcode with the bytes of its operand. -/
def assemble (text : Text) : Option (List UInt8) :=
  if text.take 3 = ".DB".toList then some [UInt8.ofNat (Hex.value (text.drop 5))]
  else
    let operand := Operand.read (text.drop 4)
    (opcode? (text.take 3) (operand.map Operand.mode)).map fun opcode ↦
      opcode :: (operand.map operandBytes).getD []

/-! ### What is assembled -/

/-- No two instructions have both their mnemonic and their mode in common. -/
theorem opcode?_of_mem_encodings : ∀ entry ∈ Opcode.encodings,
    opcode? entry.2.mnemonic.toList entry.2.mode = some entry.1 := by
  decide +kernel

theorem opcode?_of_decode {opcode : UInt8} {instruction : Instruction}
    (hdecode : decode opcode = some instruction) :
    opcode? instruction.mnemonic.toList instruction.mode = some opcode :=
  opcode?_of_mem_encodings _ (decode_eq_some_iff.mp hdecode)

theorem mode_operand (low high : UInt8) (mode : Mode) : (mode.operand low high).mode = mode := rfl

/-- The bytes of an operand are those behind the opcode. -/
theorem operandBytes_operand (memory : Memory) (address : UInt16) (mode : Mode) :
    operandBytes (mode.operand (memory.read address) (memory.read (address + 1))) =
      memory.readBytes address mode.operandWidth := by
  have hwidth : mode.operandWidth = 1 ∨ mode.operandWidth = 2 := by cases mode <;> decide
  rcases hwidth with hone | htwo
  · simp [operandBytes, Mode.operand, hone, Memory.readBytes_succ]
  · rw [operandBytes, Mode.operand, if_pos htwo, if_pos htwo, htwo, UInt16.ofNat_toNat,
      lowByte_word, highByte_word, Memory.readBytes_succ, Memory.readBytes_succ,
      Memory.readBytes_zero]

/-- The text of an instruction is assembled to the bytes of the instruction. -/
theorem assemble_text (memory : Memory) (address : UInt16) :
    assemble (text memory address) =
      some (memory.readBytes address (instructionLength (memory.read address))) := by
  cases hdecode : decode (memory.read address) with
  | none =>
    have hlength : instructionLength (memory.read address) = 1 := by rw [instructionLength, hdecode]
    rw [text_of_unsupported hdecode, hlength, Memory.readBytes_succ, Memory.readBytes_zero]
    change some [UInt8.ofNat (Hex.value (Hex.byte (memory.read address)))] = _
    rw [Hex.value_byte, UInt8.ofNat_toNat]
  | some instruction =>
    have hlength := instructionLength_of_decode hdecode
    rw [Instruction.length, Nat.add_comm] at hlength
    have hnext : address + 2 = address + 1 + 1 := by
      rw [UInt16.add_assoc]
      rfl
    have hopcode := opcode?_of_decode hdecode
    rw [assemble, take_text_of_decode hdecode, if_neg instruction.mnemonic_shape.2,
      read_operand_text hdecode, hlength, Memory.readBytes_succ]
    rw [Instruction.operandWidth]
    cases hmode : instruction.mode with
    | none =>
      rw [hmode] at hopcode
      simp only [Option.map_none, hopcode]
      rfl
    | some mode =>
      rw [hmode] at hopcode
      simp only [Option.map_some, hnext, mode_operand, hopcode, operandBytes_operand]
      rfl

/-- Texts that differ only in what an operand looks like are apart. -/
example :
    ["LDA ($1f),Y", "ASL A", "ASL $02", "ASL $0002", ".DB $02"].map (assemble ·.toList) =
      [some [0xB1, 0x1F], some [0x0A], some [0x06, 0x02], some [0x0E, 0x02, 0x00],
        some [0x02]] := by
  decide +kernel

/-- The text of an instruction tells its bytes, and nothing else. -/
theorem text_identifies_bytes (first second : Memory) (here there : UInt16) :
    (instructionIn (line first here) = instructionIn (line second there) ↔
      instructionLength (first.read here) = instructionLength (second.read there) ∧
        ∀ offset < instructionLength (first.read here),
          first.read (here + UInt16.ofNat offset) = second.read (there + UInt16.ofNat offset)) ∧
    assemble (instructionIn (line first here)) =
      some (first.readBytes here (instructionLength (first.read here))) := by
  rw [instructionIn, instructionIn, drop_line, drop_line]
  refine ⟨⟨fun htext ↦ ?_, ?_⟩, assemble_text first here⟩
  · have hbytes := congrArg assemble htext
    rw [assemble_text, assemble_text, Option.some.injEq] at hbytes
    exact Memory.readBytes_eq_iff.mp hbytes
  · rintro ⟨-, hsame⟩
    exact (text_eq_of_bytes fun offset hoffset ↦ (hsame offset hoffset).symm).symm

end Assembly

end Mos6502
