import Mos6502.Proofs.DataAccess
import Mos6502.Proofs.Fetching
import Mos6502.Proofs.Footprint
import Mos6502.Proofs.OperandText

/-!
Listings and execution agree. `Disassembly.columns` takes a line of a listing apart, and
`Machine.Foretells` says what the columns tell of the next step of a machine: its program counter,
the bytes of its instruction, how it ends, and where it accesses data. The line for the instruction
at the program counter does foretell the step (`Machine.foretells_line`).

A listing goes on by the same lengths as the program counter. As long as no instruction writes to
the bytes that the listing shows, its lines are the instructions in the order of their execution
(`Machine.lines_eq_map_after`). `Machine.listing_foretells_run` puts both together.
-/

set_option autoImplicit false
set_option relaxedAutoImplicit false

namespace Mos6502

/-! ### Mnemonics -/

namespace Instruction

/-- The names in assembly language, but for the one of the break. -/
def mnemonics : List String :=
  ["ADC", "SBC", "AND", "ORA", "EOR", "LDA", "LDX", "LDY", "STA", "STX", "STY", "TAX", "TAY", "TSX",
    "TXA", "TXS", "TYA", "ASL", "SEC", "SED", "SEI", "NOP"]

theorem mnemonic_operation_mem (operation : Operation) : operation.mnemonic ∈ mnemonics := by
  cases operation <;> decide

theorem mnemonic_store_mem (kind : Store) : kind.mnemonic ∈ mnemonics := by
  cases kind <;> decide

theorem eq_brk_or_mnemonic_mem (instruction : Instruction) :
    instruction = .brk ∨ instruction.mnemonic ∈ mnemonics := by
  cases instruction with
  | operate operation mode => exact .inr (mnemonic_operation_mem operation)
  | store kind mode => exact .inr (mnemonic_store_mem kind)
  | shift mode => exact .inr (by simp [mnemonic, mnemonics])
  | act action =>
    cases action with
    | transfer move => cases move <;> decide
    | asl | sec | sed | sei | nop => decide
  | brk => exact .inl rfl

/-- Mnemonics have three letters, and are no names of data. -/
theorem mnemonic_shape (instruction : Instruction) :
    instruction.mnemonic.toList.length = 3 ∧ instruction.mnemonic.toList ≠ ".DB".toList := by
  have hshape : ∀ name ∈ "BRK" :: mnemonics,
      name.toList.length = 3 ∧ name.toList ≠ ".DB".toList := by
    decide
  refine hshape _ ?_
  rcases instruction.eq_brk_or_mnemonic_mem with rfl | hmem
  · exact List.mem_cons_self
  · exact List.mem_cons_of_mem _ hmem

theorem mnemonic_eq_brk_iff (instruction : Instruction) :
    instruction.mnemonic.toList = "BRK".toList ↔ instruction = .brk := by
  constructor
  · intro hname
    refine instruction.eq_brk_or_mnemonic_mem.resolve_right fun hmem ↦ ?_
    rw [String.toList_inj.mp hname] at hmem
    exact absurd hmem (by decide)
  · rintro rfl
    rfl

end Instruction

namespace Disassembly

/-! ### Columns -/

/-- The columns of a line, the one with the instruction divided into its mnemonic and what stands
behind. -/
structure Columns where
  address : Text
  bytes : List Text
  mnemonic : Text
  operand : Text
  deriving DecidableEq

/-- The columns by their places in a line. -/
def columns (line : Text) : Columns where
  address := line.take 4
  bytes := Text.words ((line.drop 7).take 8)
  mnemonic := (line.drop 18).take 3
  operand := line.drop 22

theorem length_byteColumn {bytes : List UInt8} (hbytes : bytes.length ≤ 3) :
    (byteColumn bytes).length = 8 := by
  match bytes, hbytes with
  | [], _ => rfl
  | [_], _ => rfl
  | [_, _], _ => rfl
  | [_, _, _], _ => rfl

theorem words_byteColumn (bytes : List UInt8) :
    Text.words (byteColumn bytes) = bytes.map Hex.byte := by
  rw [byteColumn, List.rightpad, Text.words_append_of_blank, Text.words_intercalate]
  · intro part hpart
    obtain ⟨byte, -, rfl⟩ := List.mem_map.mp hpart
    exact ⟨List.cons_ne_nil _ _, fun character hmem ↦ (Hex.isPlain_of_mem_byte hmem).1⟩
  · intro character hmem
    rw [List.eq_of_mem_replicate hmem]
    rfl

/-- The text of an instruction stands behind the columns of its address and its bytes. -/
theorem drop_line (memory : Memory) (address : UInt16) :
    (line memory address).drop 18 = text memory address := by
  have hcolumn := length_byteColumn ((memory.length_readBytes address _).trans_le
    (instructionLength_le_three (memory.read address)))
  refine List.drop_left' ?_
  rw [List.length_append, List.length_append, hcolumn]
  rfl

theorem columns_line (memory : Memory) (address : UInt16) :
    columns (line memory address) = {
      address := Hex.word address
      bytes := (memory.readBytes address (instructionLength (memory.read address))).map Hex.byte
      mnemonic := (text memory address).take 3
      operand := (text memory address).drop 4 } := by
  have hcolumn := length_byteColumn ((memory.length_readBytes address _).trans_le
    (instructionLength_le_three (memory.read address)))
  have hbytes : (line memory address).drop 7 =
      byteColumn (memory.readBytes address (instructionLength (memory.read address))) ++
        ("   ".toList ++ text memory address) := by
    simp only [line, List.append_assoc]
    rw [← List.append_assoc]
    exact List.drop_left' rfl
  have hoperand : (line memory address).drop 22 = (text memory address).drop 4 := by
    rw [← drop_line, List.drop_drop]
  rw [columns, hbytes, List.take_left' hcolumn, words_byteColumn, drop_line, hoperand,
    Columns.mk.injEq]
  exact ⟨rfl, rfl, rfl, rfl⟩

/-! ### What the columns tell of an opcode -/

theorem text_of_unsupported {memory : Memory} {address : UInt16}
    (hdecode : decode (memory.read address) = none) :
    text memory address = ".DB $".toList ++ Hex.byte (memory.read address) := by
  simp only [text, hdecode]

theorem text_of_decode {memory : Memory} {address : UInt16} {instruction : Instruction}
    (hdecode : decode (memory.read address) = some instruction) :
    text memory address =
      instructionText instruction (memory.read (address + 1)) (memory.read (address + 2)) := by
  simp only [text, hdecode]

theorem drop_instructionText (instruction : Instruction) (low high : UInt8) :
    (instructionText instruction low high).drop 4 =
      match instruction.mode with
      | some mode => mode.operandText low high
      | none => if instruction = .act .asl then "A".toList else [] := by
  have hdrop (rest : Text) : (instruction.mnemonic.toList ++ rest).drop 4 = rest.drop 1 := by
    have hlength := instruction.mnemonic_shape.1
    rw [List.drop_append, List.drop_eq_nil_of_le (hlength.trans_le (by decide)), hlength,
      List.nil_append]
  rw [instructionText, hdrop]
  cases instruction.mode with
  | some mode => rfl
  | none =>
    dsimp only
    split <;> rfl

section Opcode

variable {memory : Memory} {address : UInt16}

theorem take_text_of_decode {instruction : Instruction}
    (hdecode : decode (memory.read address) = some instruction) :
    (text memory address).take 3 = instruction.mnemonic.toList := by
  rw [text_of_decode hdecode]
  exact List.take_left' instruction.mnemonic_shape.1

/-- The operand of a text is the one of its instruction, and there is none without a mode. -/
theorem read_operand_text {instruction : Instruction}
    (hdecode : decode (memory.read address) = some instruction) :
    Operand.read ((text memory address).drop 4) =
      instruction.mode.map
        (Mode.operand (memory.read (address + 1)) (memory.read (address + 2))) := by
  rw [text_of_decode hdecode, drop_instructionText]
  cases instruction.mode with
  | some mode => exact Operand.read_operandText _ _ mode
  | none =>
    rw [Option.map_none]
    dsimp only
    split <;> decide

theorem mnemonic_line_of_decode {instruction : Instruction}
    (hdecode : decode (memory.read address) = some instruction) :
    (columns (line memory address)).mnemonic = instruction.mnemonic.toList := by
  rw [columns_line, take_text_of_decode hdecode]

theorem mnemonic_line_eq_data_iff :
    (columns (line memory address)).mnemonic = ".DB".toList ↔
      decode (memory.read address) = none := by
  cases hdecode : decode (memory.read address) with
  | none =>
    rw [columns_line, text_of_unsupported hdecode]
    exact iff_of_true rfl rfl
  | some instruction =>
    rw [mnemonic_line_of_decode hdecode]
    exact iff_of_false instruction.mnemonic_shape.2 (Option.some_ne_none _)

theorem mnemonic_line_eq_brk_iff :
    (columns (line memory address)).mnemonic = "BRK".toList ↔
      decode (memory.read address) = some .brk := by
  cases hdecode : decode (memory.read address) with
  | none =>
    rw [mnemonic_line_eq_data_iff.mpr hdecode]
    exact iff_of_false (by decide) (Option.some_ne_none _).symm
  | some instruction =>
    rw [mnemonic_line_of_decode hdecode, instruction.mnemonic_eq_brk_iff, Option.some_inj]

theorem read_operand_line {instruction : Instruction}
    (hdecode : decode (memory.read address) = some instruction) :
    Operand.read (columns (line memory address)).operand =
      instruction.mode.map
        (Mode.operand (memory.read (address + 1)) (memory.read (address + 2))) := by
  rw [columns_line, read_operand_text hdecode]

end Opcode

/-! ### What a line depends on -/

/-- The addresses of the bytes that the line for an instruction shows. -/
def span (memory : Memory) (address : UInt16) : List UInt16 :=
  (List.range (instructionLength (memory.read address))).map fun offset ↦
    address + UInt16.ofNat offset

theorem mem_span {memory : Memory} {address : UInt16} (offset : Nat)
    (hoffset : offset < instructionLength (memory.read address)) :
    address + UInt16.ofNat offset ∈ span memory address :=
  List.mem_map_of_mem (List.mem_range.mpr hoffset)

theorem mem_span_self (memory : Memory) (address : UInt16) : address ∈ span memory address := by
  have hfirst := mem_span 0 (instructionLength_pos (memory.read address))
  rwa [show UInt16.ofNat 0 = 0 from rfl, UInt16.add_zero] at hfirst

/-- An instruction is shown with its own operand bytes alone. -/
theorem instructionText_congr {instruction : Instruction} {low high otherLow otherHigh : UInt8}
    (hlow : 1 ≤ instruction.operandWidth → otherLow = low)
    (hhigh : 2 ≤ instruction.operandWidth → otherHigh = high) :
    instructionText instruction otherLow otherHigh = instructionText instruction low high := by
  rw [Instruction.operandWidth] at hlow hhigh
  unfold instructionText
  cases hmode : instruction.mode with
  | none => rfl
  | some mode =>
    rw [hmode] at hlow hhigh
    cases mode with
    | immediate | zeroPage | zeroPageX | zeroPageY | indirectX | indirectY =>
      rw [hlow (Nat.le_refl 1)]
      rfl
    | absolute | absoluteX | absoluteY => rw [hlow (Nat.le_succ 1), hhigh (Nat.le_refl 2)]

/-- The text of an instruction depends on the bytes of the instruction alone, wherever they lie. -/
theorem text_eq_of_bytes {first second : Memory} {here there : UInt16}
    (hsame : ∀ offset < instructionLength (first.read here),
      second.read (there + UInt16.ofNat offset) = first.read (here + UInt16.ofNat offset)) :
    text second there = text first here := by
  have hopcode : second.read there = first.read here := by
    simpa using hsame 0 (instructionLength_pos _)
  cases hdecode : decode (first.read here) with
  | none => rw [text_of_unsupported hdecode, text_of_unsupported (hopcode ▸ hdecode), hopcode]
  | some instruction =>
    have hlength := instructionLength_of_decode hdecode
    rw [Instruction.length] at hlength
    rw [text_of_decode hdecode, text_of_decode (hopcode ▸ hdecode)]
    refine instructionText_congr (fun hwidth ↦ ?_) fun hwidth ↦ ?_
    · exact hsame 1 (by omega)
    · exact hsame 2 (by omega)

section Congruence

variable {first second : Memory} {address : UInt16}
  (hsame : ∀ place ∈ span first address, second.read place = first.read place)
include hsame

theorem text_congr : text second address = text first address :=
  text_eq_of_bytes fun offset hoffset ↦ hsame _ (mem_span offset hoffset)

/-- A line depends on the bytes that it shows alone. -/
theorem line_congr : line second address = line first address := by
  have hbytes : second.readBytes address (instructionLength (first.read address)) =
      first.readBytes address (instructionLength (first.read address)) :=
    List.map_congr_left fun offset hoffset ↦ hsame _ (List.mem_map_of_mem hoffset)
  rw [line, line, text_congr hsame, hsame address (mem_span_self first address), hbytes]

end Congruence

/-! ### Lines in a row -/

/-- The address of an instruction of a listing, by its number counted from zero. -/
def addressAt (memory : Memory) (start : UInt16) (index : Nat) : UInt16 :=
  (next memory)^[index] start

/-- The addresses of all bytes that the first lines of a listing show. -/
def shown (memory : Memory) (start : UInt16) (count : Nat) : List UInt16 :=
  (List.range count).flatMap fun index ↦ span memory (addressAt memory start index)

theorem addressAt_succ (memory : Memory) (start : UInt16) (index : Nat) :
    addressAt memory start (index + 1) = next memory (addressAt memory start index) :=
  Function.iterate_succ_apply' _ _ _

theorem lines_eq_map (memory : Memory) (start : UInt16) (count : Nat) :
    lines memory start count =
      (List.range count).map fun index ↦ line memory (addressAt memory start index) := by
  induction count generalizing start with
  | zero => rfl
  | succ count ih =>
    rw [lines, ih, List.range_succ_eq_map, List.map_cons, List.map_map]
    rfl

theorem mem_shown_of_mem_span {memory : Memory} {start place : UInt16} {index count : Nat}
    (hindex : index < count) (hplace : place ∈ span memory (addressAt memory start index)) :
    place ∈ shown memory start count :=
  List.mem_flatMap.mpr ⟨index, List.mem_range.mpr hindex, hplace⟩

end Disassembly

namespace Machine

open Disassembly

/-! ### One step -/

/-- Whether a line tells of the next step of a machine. Its first columns spell the program counter
and the bytes of the instruction there, whose number the program counter moves by. The mnemonics
`.DB` and `BRK` stand for an unsupported opcode and for a halt. Elsewhere the operand means the
address at which data is accessed, and no data is accessed if there is none. -/
structure Foretells (line : Text) (machine : Machine) : Prop where
  address : Hex.IsNumeral [[]] 4 (columns line).address machine.registers.pc.toNat
  bytes : List.Forall₂ (fun digits byte ↦ Hex.IsNumeral [[]] 2 digits byte.toNat)
    (columns line).bytes
    (machine.memory.readBytes machine.registers.pc (instructionLength machine.opcode))
  pc : machine.step.2.registers.pc =
    machine.registers.pc + UInt16.ofNat (instructionLength machine.opcode)
  unsupported : (columns line).mnemonic = ".DB".toList ↔
    ∃ fault, machine.step.1 = some (.unsupported fault)
  halted : (columns line).mnemonic = "BRK".toList ↔ machine.step.1 = some .halted
  data : (columns line).mnemonic ≠ ".DB".toList → ∀ place, machine.AccessesData place ↔
    (Operand.read (columns line).operand).map machine.addressOf = some place.toNat

/-- The line for the instruction at the program counter of a running machine, which goes by the
canonical rule, tells of its next step. -/
theorem foretells_line {machine : Machine} (hrunning : machine.state = .running)
    (hrule : machine.settings.indirect = .canonical) :
    Foretells (line machine.memory machine.registers.pc) machine := by
  have houtcome := outcome_step_eq hrunning
  constructor
  case address =>
    rw [columns_line]
    exact Hex.isNumeral_word _
  case bytes =>
    rw [columns_line, opcode, List.forall₂_map_left_iff, List.forall₂_same]
    exact fun byte _ ↦ Hex.isNumeral_byte byte
  case pc => exact pc_step hrunning
  case unsupported =>
    simp only [mnemonic_line_eq_data_iff, houtcome, Option.some_inj]
    exact machine.outcomeAhead_eq_unsupported_iff.symm
  case halted =>
    rw [mnemonic_line_eq_brk_iff, houtcome, Option.some_inj]
    exact machine.outcomeAhead_eq_halted_iff.symm
  case data =>
    intro hcode place
    obtain ⟨instruction, hdecode⟩ :=
      Option.ne_none_iff_exists'.mp fun hnone ↦ hcode (mnemonic_line_eq_data_iff.mpr hnone)
    rw [accessesData_iff_of_decode hdecode, read_operand_line hdecode, effectiveAddress,
      Instruction.effectiveAddress, hrule]
    cases instruction.mode with
    | none => simp
    | some mode =>
      have hmeaning := machine.addressOf_eq_effectiveAddress mode
      rw [Option.map_some, Option.map_some, hmeaning, Option.some_inj, UInt16.toNat_inj]
      exact and_iff_right rfl

/-! ### A run -/

section Run

variable {machine : Machine} {count : Nat}
  (hunwritten : ∀ access ∈ machine.traffic count, access.direction = .write →
    access.address ∉ shown machine.memory machine.registers.pc count)
include hunwritten

/-- The bytes that a listing shows are there through the whole run. -/
theorem read_after_of_mem_shown {call : Nat} (hcall : call ≤ count) {place : UInt16}
    (hplace : place ∈ shown machine.memory machine.registers.pc count) :
    (machine.after call).memory.read place = machine.memory.read place :=
  read_after_of_unwritten fun access haccess hwrite heq ↦
    hunwritten access (traffic_subset hcall haccess) hwrite (heq ▸ hplace)

variable (hcalls : machine.runningCalls count = count)
include hcalls

/-- The program counter goes where the listing goes. -/
theorem pc_after_eq_addressAt {call : Nat} (hcall : call ≤ count) :
    (machine.after call).registers.pc = addressAt machine.memory machine.registers.pc call := by
  induction call with
  | zero => rfl
  | succ call ih =>
    have hbefore := ih (Nat.le_of_succ_le hcall)
    have hrunning : (machine.after call).state = .running :=
      (machine.running_after_iff hcall).mpr (hcalls.symm ▸ hcall)
    have hopcode : (machine.after call).opcode =
        machine.memory.read (addressAt machine.memory machine.registers.pc call) := by
      rw [opcode, hbefore]
      exact read_after_of_mem_shown hunwritten (Nat.le_of_succ_le hcall)
        (mem_shown_of_mem_span hcall (mem_span_self _ _))
    rw [after_succ, pc_step hrunning, hopcode, hbefore, addressAt_succ, next]

/-- The lines of a listing are the instructions in the order of their execution. -/
theorem lines_eq_map_after :
    lines machine.memory machine.registers.pc count = (List.range count).map fun call ↦
      line (machine.after call).memory (machine.after call).registers.pc := by
  rw [lines_eq_map]
  refine List.map_congr_left fun call hcall ↦ ?_
  rw [List.mem_range] at hcall
  rw [pc_after_eq_addressAt hunwritten hcalls hcall.le]
  refine (line_congr fun place hplace ↦ ?_).symm
  exact read_after_of_mem_shown hunwritten hcall.le (mem_shown_of_mem_span hcall hplace)

end Run

/-- Disassembly and execution agree: the line for the instruction at the program counter of a
running machine, which goes by the canonical rule, tells of the next step. If the machine executes
a number of instructions, and none of them writes to a byte that as many lines show, then these
lines are the instructions in the order of their execution, and each line tells of its step. -/
theorem listing_foretells_run (machine : Machine) (hrunning : machine.state = .running)
    (hrule : machine.settings.indirect = .canonical) :
    Foretells (line machine.memory machine.registers.pc) machine ∧
      ∀ count, machine.runningCalls count = count →
        (∀ access ∈ machine.traffic count, access.direction = .write →
          access.address ∉ shown machine.memory machine.registers.pc count) →
        (lines machine.memory machine.registers.pc count = (List.range count).map fun call ↦
          line (machine.after call).memory (machine.after call).registers.pc) ∧
        ∀ call shownLine,
          (lines machine.memory machine.registers.pc count)[call]? = some shownLine →
            Foretells shownLine (machine.after call) := by
  refine ⟨foretells_line hrunning hrule, fun count hcalls hunwritten ↦ ?_⟩
  have hlines := lines_eq_map_after hunwritten hcalls
  refine ⟨hlines, fun call shownLine hline ↦ ?_⟩
  rw [hlines, List.getElem?_map, Option.map_eq_some_iff] at hline
  obtain ⟨index, hindex, rfl⟩ := hline
  obtain ⟨hcall, rfl⟩ := List.getElem?_eq_some_iff.mp hindex
  rw [List.length_range] at hcall
  rw [List.getElem_range]
  refine foretells_line ((machine.running_after_iff hcall).mpr (hcalls.symm ▸ hcall)) ?_
  rw [settings_after, hrule]

/-- A listing that wraps around the end of memory, with a load through a pointer and a store over a
byte that is not shown. -/
theorem listing_foretells_run_of_wrapped_listing :
    let machine : Machine :=
      { registers := { pc := 0xFFFD, x := 0x03, y := 0x01 }
        memory := Memory.blank.writeBytes 0xFFFD [0xB1, 0x10, 0x9D, 0x00, 0x02, 0x00] }
    machine.state = .running ∧ machine.settings.indirect = .canonical ∧
      machine.runningCalls 3 = 3 ∧
      (∀ access ∈ machine.traffic 3, access.direction = .write →
        access.address ∉ shown machine.memory machine.registers.pc 3) ∧
      Foretells (line machine.memory machine.registers.pc) machine ∧
      (∀ call shownLine, (lines machine.memory machine.registers.pc 3)[call]? = some shownLine →
        Foretells shownLine (machine.after call)) ∧
      lines machine.memory machine.registers.pc 3 =
        ["fffd:  b1 10      LDA ($10),Y".toList, "ffff:  9d 00 02   STA $0200,X".toList,
          "0002:  00         BRK".toList] := by
  intro machine
  have hcalls : machine.runningCalls 3 = 3 := by decide +kernel
  have hunwritten : ∀ access ∈ machine.traffic 3, access.direction = .write →
      access.address ∉ shown machine.memory machine.registers.pc 3 := by
    decide +kernel
  obtain ⟨hfirst, hrun⟩ := listing_foretells_run machine rfl rfl
  exact ⟨rfl, rfl, hcalls, hunwritten, hfirst, (hrun 3 hcalls hunwritten).2, by decide +kernel⟩

end Machine

end Mos6502
