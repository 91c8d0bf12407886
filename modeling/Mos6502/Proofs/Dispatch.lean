import Mos6502.Proofs.Cycle
import Mos6502.Proofs.Encodings

/-!
Dispatch through a table. Here an opcode stands for an entry, a name beside an addressing mode or
none, and nothing ties the two together: each handler takes the mode as it finds it. So there are
entries that a handler refuses, because it needs an address and there is no mode, or because a break
or no instruction at all comes to be executed (`Entry.run_execute_eq_error_iff`).

`Opcode.table` is the table row by row, and `Opcode.entry` looks an opcode up in it. What is found
is the row of the instruction that the opcode decodes to (`Opcode.entry_eq`). The table has no
entries that are refused but for those two (`Opcode.refusal?_entry_eq_none_iff`), and they are kept
from the handlers. What a handler does with the entry of an instruction is what the instruction
does (`Instruction.execute_entry`), so a turn of the processor through the table is the turn that it
makes (`tableCycle_eq`), and a step through the table raises no error of a handler
(`Machine.tableStep_eq`).
-/

set_option autoImplicit false
set_option relaxedAutoImplicit false

namespace Mos6502

/-! ### Entries -/

/-- What an opcode is named for in the table. -/
inductive EntryName
  | operate (operation : Operation)
  | store (kind : Store)
  | asl
  | transfer (move : Transfer)
  | sec
  | sed
  | sei
  | nop
  | brk
  | invalid
  deriving DecidableEq

/-- A row of the table. -/
structure Entry where
  name : EntryName
  mode : Option Mode
  deriving DecidableEq

/-- The row of an instruction. The shifts of the accumulator and of a byte in memory have one
name. -/
def Instruction.entry : Instruction → Entry
  | .operate operation mode => ⟨.operate operation, some mode⟩
  | .store kind mode => ⟨.store kind, some mode⟩
  | .shift mode => ⟨.asl, some mode⟩
  | .act .asl => ⟨.asl, none⟩
  | .act (.transfer move) => ⟨.transfer move, none⟩
  | .act .sec => ⟨.sec, none⟩
  | .act .sed => ⟨.sed, none⟩
  | .act .sei => ⟨.sei, none⟩
  | .act .nop => ⟨.nop, none⟩
  | .brk => ⟨.brk, none⟩

namespace Opcode

/-- The rows of a name in several modes, or without one. -/
def rows (name : EntryName) (codes : List (Option Mode × UInt8)) : List (UInt8 × Entry) :=
  codes.map fun (mode, opcode) ↦ (opcode, ⟨name, mode⟩)

/-- All rows of the table with their opcodes. -/
def table : List (UInt8 × Entry) :=
  rows (.operate .adc) [(some .immediate, 0x69), (some .zeroPage, 0x65), (some .zeroPageX, 0x75),
    (some .absolute, 0x6D), (some .absoluteX, 0x7D), (some .absoluteY, 0x79),
    (some .indirectX, 0x61), (some .indirectY, 0x71)] ++
  rows (.operate .sbc) [(some .immediate, 0xE9), (some .zeroPage, 0xE5), (some .zeroPageX, 0xF5),
    (some .absolute, 0xED), (some .absoluteX, 0xFD), (some .absoluteY, 0xF9),
    (some .indirectX, 0xE1), (some .indirectY, 0xF1)] ++
  rows (.operate .and) [(some .immediate, 0x29), (some .zeroPage, 0x25), (some .zeroPageX, 0x35),
    (some .absolute, 0x2D), (some .absoluteX, 0x3D), (some .absoluteY, 0x39),
    (some .indirectX, 0x21), (some .indirectY, 0x31)] ++
  rows (.operate .ora) [(some .immediate, 0x09), (some .zeroPage, 0x05), (some .zeroPageX, 0x15),
    (some .absolute, 0x0D), (some .absoluteX, 0x1D), (some .absoluteY, 0x19),
    (some .indirectX, 0x01), (some .indirectY, 0x11)] ++
  rows (.operate .eor) [(some .immediate, 0x49), (some .zeroPage, 0x45), (some .zeroPageX, 0x55),
    (some .absolute, 0x4D), (some .absoluteX, 0x5D), (some .absoluteY, 0x59),
    (some .indirectX, 0x41), (some .indirectY, 0x51)] ++
  rows .asl [(some .zeroPage, 0x06), (some .zeroPageX, 0x16), (some .absolute, 0x0E),
    (some .absoluteX, 0x1E)] ++
  rows (.operate .lda) [(some .immediate, 0xA9), (some .zeroPage, 0xA5), (some .zeroPageX, 0xB5),
    (some .absolute, 0xAD), (some .absoluteX, 0xBD), (some .absoluteY, 0xB9),
    (some .indirectX, 0xA1), (some .indirectY, 0xB1)] ++
  rows (.operate .ldx) [(some .immediate, 0xA2), (some .zeroPage, 0xA6), (some .zeroPageY, 0xB6),
    (some .absolute, 0xAE), (some .absoluteY, 0xBE)] ++
  rows (.operate .ldy) [(some .immediate, 0xA0), (some .zeroPage, 0xA4), (some .zeroPageX, 0xB4),
    (some .absolute, 0xAC), (some .absoluteX, 0xBC)] ++
  rows (.store .sta) [(some .zeroPage, 0x85), (some .zeroPageX, 0x95), (some .absolute, 0x8D),
    (some .absoluteX, 0x9D), (some .absoluteY, 0x99), (some .indirectX, 0x81),
    (some .indirectY, 0x91)] ++
  rows (.store .stx) [(some .zeroPage, 0x86), (some .zeroPageY, 0x96), (some .absolute, 0x8E)] ++
  rows (.store .sty) [(some .zeroPage, 0x84), (some .zeroPageX, 0x94), (some .absolute, 0x8C)] ++
  rows .asl [(none, 0x0A)] ++
  rows (.transfer .tax) [(none, 0xAA)] ++ rows (.transfer .tay) [(none, 0xA8)] ++
  rows (.transfer .tsx) [(none, 0xBA)] ++ rows (.transfer .txa) [(none, 0x8A)] ++
  rows (.transfer .txs) [(none, 0x9A)] ++ rows (.transfer .tya) [(none, 0x98)] ++
  rows .sec [(none, 0x38)] ++ rows .sed [(none, 0xF8)] ++ rows .sei [(none, 0x78)] ++
  rows .nop [(none, 0xEA)] ++ rows .brk [(none, 0x00)]

/-- The row of an opcode. What the table does not list is invalid. -/
def entry (opcode : UInt8) : Entry := (table.lookup opcode).getD ⟨.invalid, none⟩

/-- The rows are those of the instructions. -/
theorem table_eq :
    table = encodings.map fun (opcode, instruction) ↦ (opcode, instruction.entry) := by
  decide +kernel

/-- Looking up an opcode finds the row of the instruction that it decodes to. -/
theorem lookup_table (opcode : UInt8) :
    table.lookup opcode = (decode opcode).map Instruction.entry := by
  rw [table_eq]
  cases hlookup : (encodings.map fun (opcode, instruction) ↦
    (opcode, instruction.entry)).lookup opcode with
  | none =>
    have hnone : decode opcode = none := by
      refine Option.eq_none_iff_forall_not_mem.mpr fun instruction hdecode ↦ ?_
      have hlisted := List.mem_map_of_mem (f := fun row : UInt8 × Instruction ↦
        (row.1, row.2.entry)) (decode_eq_some_iff.mp hdecode)
      simpa using List.lookup_eq_none_iff.mp hlookup _ hlisted
    rw [hnone, Option.map_none]
  | some row =>
    obtain ⟨before, rest, hsplit, -⟩ := List.lookup_eq_some_iff.mp hlookup
    obtain ⟨⟨code, instruction⟩, hlisted, hrow⟩ := List.mem_map.mp
      (hsplit ▸ List.mem_append_right before List.mem_cons_self)
    cases hrow
    rw [decode_eq_some_iff.mpr hlisted, Option.map_some]

/-- The table has the row of the instruction that an opcode decodes to. -/
theorem entry_eq (opcode : UInt8) :
    entry opcode = ((decode opcode).map Instruction.entry).getD ⟨.invalid, none⟩ := by
  rw [entry, lookup_table]

end Opcode

/-! ### Handlers -/

/-- What goes wrong in a handler that cannot carry out its entry. -/
inductive HandlerError
  | addressing (error : AddressingError)
  | notBitwise
  | notExecutable
  deriving DecidableEq

/-- The wording of a handler error. -/
def HandlerError.message : HandlerError → Text
  | .addressing error => error.message
  | .notBitwise => "bit_op called with a non-bitwise op".toList
  | .notExecutable => "BRK and invalid opcodes are handled by step()".toList

namespace Entry

section Handlers

variable {α : Type} (rule : IndirectRule) (registers : Registers)

/-- Finds the address of a mode. -/
def address (mode : Option Mode) (next : UInt16 → BusProgram (Except HandlerError α)) :
    BusProgram (Except HandlerError α) :=
  match mode with
  | none => .done (.error (.addressing .impliedMode))
  | some mode => mode.resolve rule registers next

/-- Additions, subtractions and loads: reads a byte and goes on behind the operand. -/
def operate (operation : Operation) (mode : Option Mode)
    (next : Registers → BusProgram (Except HandlerError α)) :
    BusProgram (Except HandlerError α) :=
  address rule registers mode fun place ↦
    .read place (.data operation) fun operand ↦
      next ((operation.apply registers operand).advance (Mode.widthOf mode))

/-- The bitwise operations. The byte is read before it turns out that the operation is another
one. -/
def bitwise (operation : Operation) (mode : Option Mode)
    (next : Registers → BusProgram (Except HandlerError α)) :
    BusProgram (Except HandlerError α) :=
  let purpose : Operation :=
    match operation with
    | .and => .and
    | .ora => .ora
    | _ => .eor
  address rule registers mode fun place ↦
    .read place (.data purpose) fun operand ↦
      match operation with
      | .and | .ora | .eor =>
          next ((operation.apply registers operand).advance (Mode.widthOf mode))
      | _ => .done (.error .notBitwise)

/-- The stores. -/
def store (kind : Store) (mode : Option Mode)
    (next : Registers → BusProgram (Except HandlerError α)) :
    BusProgram (Except HandlerError α) :=
  address rule registers mode fun place ↦
    .write place (registers.get kind.source) .store
      (next (registers.advance (Mode.widthOf mode)))

/-- The shift. Without a mode it is the accumulator that is shifted. -/
def shift (mode : Option Mode) (next : Registers → BusProgram (Except HandlerError α)) :
    BusProgram (Except HandlerError α) :=
  match mode with
  | none => next ((Action.apply registers .asl).advance (Mode.widthOf none))
  | some mode =>
      address rule registers (some mode) fun place ↦
        .read place .shift fun operand ↦
          .write place (operand <<< 1) .shift
            (next ({ registers with status := registers.status.withShift operand }.advance
              (Mode.widthOf (some mode))))

/-- Gives an entry to its handler, with the program counter behind the opcode. -/
def execute (entry : Entry) (next : Registers → BusProgram (Except HandlerError α)) :
    BusProgram (Except HandlerError α) :=
  match entry.name with
  | .operate .and => bitwise rule registers .and entry.mode next
  | .operate .ora => bitwise rule registers .ora entry.mode next
  | .operate .eor => bitwise rule registers .eor entry.mode next
  | .operate operation => operate rule registers operation entry.mode next
  | .store kind => store rule registers kind entry.mode next
  | .asl => shift rule registers entry.mode next
  | .transfer move => next (move.apply registers)
  | .sec => next (Action.apply registers .sec)
  | .sed => next (Action.apply registers .sed)
  | .sei => next (Action.apply registers .sei)
  | .nop => next registers
  | .brk | .invalid => .done (.error .notExecutable)

/-- The error with which the handler of an entry refuses it, if it does. -/
def refusal? : Entry → Option HandlerError
  | ⟨.operate _, none⟩ | ⟨.store _, none⟩ => some (.addressing .impliedMode)
  | ⟨.brk, _⟩ | ⟨.invalid, _⟩ => some .notExecutable
  | _ => none

/-- Of all pairs of a name and a mode, these are refused: what needs an address and has no mode, the
break, and what stands for no instruction. The handler of the bitwise operations gets no other
operation from any of them. -/
theorem run_execute_eq_error_iff (entry : Entry) (memory : Memory) (error : HandlerError) :
    ((entry.execute rule registers fun left ↦ .done (.ok left)).run memory).1 = .error error ↔
      entry.refusal? = some error := by
  obtain ⟨name, mode⟩ := entry
  cases name with
  | operate operation =>
    cases mode with
    | none =>
      cases operation <;> simp [execute, operate, bitwise, address, refusal?, BusProgram.run]
    | some mode =>
      cases operation <;>
        simp [execute, operate, bitwise, address, refusal?, Mode.run_resolve, BusProgram.run]
  | store kind =>
    cases mode with
    | none => simp [execute, store, address, refusal?, BusProgram.run]
    | some mode => simp [execute, store, address, refusal?, Mode.run_resolve, BusProgram.run]
  | asl =>
    cases mode with
    | none => simp [execute, shift, refusal?, BusProgram.run]
    | some mode => simp [execute, shift, address, refusal?, Mode.run_resolve, BusProgram.run]
  | transfer | sec | sed | sei | nop | brk | invalid =>
    simp [execute, refusal?, BusProgram.run]

end Handlers

end Entry

/-- The handlers refuse no row of the table but those of the break and of the opcodes that stand for
no instruction. -/
theorem Opcode.refusal?_entry_eq_none_iff (opcode : UInt8) :
    (entry opcode).refusal? = none ↔
      ∃ instruction, decode opcode = some instruction ∧ instruction ≠ .brk := by
  rw [entry_eq]
  cases decode opcode with
  | none => simp [Entry.refusal?]
  | some instruction =>
    cases instruction with
    | act action => cases action <;> simp [Instruction.entry, Entry.refusal?]
    | operate | store | shift | brk => simp [Instruction.entry, Entry.refusal?]

theorem Registers.advance_zero (registers : Registers) : registers.advance 0 = registers := by
  simp [advance]

/-- The handlers carry out the row of each instruction but the break, and leave the program counter
behind the operand. -/
theorem Instruction.execute_entry {α : Type} (rule : IndirectRule) (registers : Registers)
    {instruction : Instruction} (hbrk : instruction ≠ .brk)
    (next : Registers → BusProgram (Except HandlerError α)) :
    instruction.entry.execute rule registers next =
      instruction.execute rule registers fun executed ↦
        next (executed.advance instruction.operandWidth) := by
  cases instruction with
  | operate operation mode => cases operation <;> rfl
  | store kind mode => rfl
  | shift mode => rfl
  | act action =>
    cases action with
    | asl => rfl
    | transfer move => exact congrArg next (Registers.advance_zero _).symm
    | sec | sed | sei | nop => exact congrArg next (Registers.advance_zero _).symm
  | brk => exact absurd rfl hbrk

/-! ### Programs with another result -/

namespace BusProgram

variable {α β : Type}

/-- The same traffic with another result. -/
def map (change : α → β) : BusProgram α → BusProgram β
  | .done result => .done (change result)
  | .read address purpose next => .read address purpose fun data ↦ (next data).map change
  | .write address data purpose next => .write address data purpose (next.map change)

theorem observe_map (change : α → β) (program : BusProgram α) (memory : Memory) :
    (program.map change).observe memory =
      let (accesses, result, left) := program.observe memory
      (accesses, change result, left) := by
  induction program generalizing memory with
  | done result => rfl
  | read address purpose next ih => simp only [map, observe, ih]
  | write address data purpose next ih => simp only [map, observe, ih]

end BusProgram

theorem Mode.map_resolve {α β : Type} (change : α → β) (rule : IndirectRule)
    (registers : Registers) (mode : Mode) (next : UInt16 → BusProgram α) :
    (mode.resolve rule registers next).map change =
      mode.resolve rule registers fun address ↦ (next address).map change := by
  cases mode <;> cases rule <;> rfl

theorem Instruction.map_execute {α β : Type} (change : α → β) (rule : IndirectRule)
    (registers : Registers) (instruction : Instruction) (next : Registers → BusProgram α) :
    (instruction.execute rule registers next).map change =
      instruction.execute rule registers fun executed ↦ (next executed).map change := by
  cases instruction with
  | operate operation mode =>
    rw [execute, Mode.map_resolve]
    rfl
  | store kind mode =>
    rw [execute, Mode.map_resolve]
    rfl
  | shift mode =>
    rw [execute, Mode.map_resolve]
    rfl
  | act action => rfl
  | brk => rfl

/-! ### A turn through the table -/

/-- A turn of the processor that looks its opcode up in the table. The break and the opcodes that
stand for no instruction are kept from the handlers. -/
def tableCycle (rule : IndirectRule) (registers : Registers) :
    BusProgram (Except HandlerError (Outcome × Registers)) :=
  .read registers.pc .opcodeFetch fun opcode ↦
    let fetched := registers.advance 1
    let entry := Opcode.entry opcode
    if opcode = 0x00 then
      .done (.ok (.halted, { fetched with status := { fetched.status with breakMark := true } }))
    else if entry.name = .invalid then
      .done (.ok (.unsupported ⟨opcode, registers.pc⟩, fetched))
    else entry.execute rule fetched fun executed ↦ .done (.ok (.completed, executed))

theorem Instruction.name_entry_ne_invalid (instruction : Instruction) :
    instruction.entry.name ≠ .invalid := by
  cases instruction with
  | act action => cases action <;> exact EntryName.noConfusion
  | operate | store | shift | brk => exact EntryName.noConfusion

/-- A turn through the table is the turn of the processor, with the same traffic. -/
theorem tableCycle_eq (rule : IndirectRule) (registers : Registers) :
    tableCycle rule registers = (instructionCycle rule registers).map .ok := by
  unfold tableCycle instructionCycle BusProgram.map
  congr 1
  funext opcode
  cases hdecode : decode opcode with
  | none =>
    have hopcode : opcode ≠ 0x00 := fun hzero ↦ by
      rw [decode_eq_brk_iff.mpr hzero] at hdecode
      cases hdecode
    simp only [Opcode.entry_eq, hdecode, if_neg hopcode]
    rfl
  | some instruction =>
    simp only [Opcode.entry_eq, hdecode, Option.map_some, Option.getD_some,
      Instruction.map_execute]
    by_cases hbrk : instruction = .brk
    · subst hbrk
      rw [if_pos (decode_eq_brk_iff.mp hdecode), Instruction.execute, BusProgram.map,
        Instruction.operandWidth, Instruction.mode, Mode.widthOf, Registers.advance_zero]
      rfl
    · have hopcode : opcode ≠ 0x00 := fun hzero ↦ by
        rw [decode_eq_brk_iff.mpr hzero] at hdecode
        exact hbrk (Option.some.inj hdecode).symm
      rw [if_neg hopcode, if_neg instruction.name_entry_ne_invalid,
        Instruction.execute_entry _ _ hbrk, Instruction.outcome_of_ne_brk hbrk]
      rfl

namespace Machine

/-- A step that looks its opcode up in the table. -/
def tableStep (machine : Machine) : Except HandlerError (Option Outcome × Machine) :=
  if machine.state = .running then
    let cycle := tableCycle machine.settings.indirect machine.registers
    let (accesses, result, memory) := cycle.observe machine.memory
    result.map fun (outcome, registers) ↦
      let pc := machine.registers.pc
      let steps := machine.steps + 1
      let frame := Frame.of steps pc (machine.memory.read pc) registers accesses
      let timeline :=
        if machine.settings.trace then
          machine.timeline.record machine.settings.traceLimit frame
        else machine.timeline
      (some outcome,
        { registers, memory, state := outcome.state, steps, settings := machine.settings,
          timeline })
  else .ok (none, machine)

/-- A step through the table raises no error of a handler, and does what a step does. -/
theorem tableStep_eq (machine : Machine) : machine.tableStep = .ok machine.step := by
  unfold tableStep
  by_cases hrunning : machine.state = .running
  · rw [if_pos hrunning, step_of_running machine hrunning, tableCycle_eq]
    simp only [BusProgram.observe_map]
    simp only [BusProgram.observe_eq]
    rfl
  · rw [if_neg hrunning, step_of_stopped machine hrunning]

end Machine

end Mos6502
