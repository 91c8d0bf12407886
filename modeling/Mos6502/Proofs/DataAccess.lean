import Mos6502.Proofs.Cycle
import Mos6502.Proofs.Recording

/-!
The traffic of a turn of the processor in its parts (`Machine.accesses_cycle_of_decode`): the fetch
of the opcode, then the reads that find the effective address (`Instruction.resolution`), then the
accesses to the data there (`Instruction.dataAccesses`). Only the last ones have a purpose that
tells of data, hence an instruction accesses data exactly at the effective address of its mode
(`Machine.accessesData_iff_of_decode`), and nowhere if it has none.
-/

set_option autoImplicit false
set_option relaxedAutoImplicit false

namespace Mos6502

/-- Whether a byte is passed as data, and neither as a part of an instruction nor of a pointer. -/
def Purpose.isData : Purpose → Bool
  | .data _ | .shift | .store => true
  | .opcodeFetch | .operand | .operandLow | .operandHigh | .pointer | .pointerLow
  | .pointerHigh => false

/-! ### Finding the effective address -/

namespace Mode

variable (rule : IndirectRule) (registers : Registers) (memory : Memory) (mode : Mode)

/-- The accesses that find the effective address of a mode. -/
def resolution : List Access := (mode.resolve rule registers .done).accesses memory

/-- A program that resolves a mode first has these accesses first. -/
theorem accesses_resolve {α : Type} (next : UInt16 → BusProgram α) :
    (mode.resolve rule registers next).accesses memory =
      mode.resolution rule registers memory ++
        (next (mode.effectiveAddress rule registers memory)).accesses memory := by
  cases mode <;> cases rule <;>
    simp [resolution, resolve, effectiveAddress, BusProgram.readWord, Memory.readWord,
      shiftLeft_word_or_word]

/-- No byte is passed as data before the effective address is known. -/
theorem isData_eq_false_of_mem_resolution :
    ∀ access ∈ mode.resolution rule registers memory, access.purpose.isData = false := by
  cases mode <;> cases rule <;>
    simp [resolution, resolve, BusProgram.readWord, Purpose.isData]

end Mode

/-! ### Accessing the data -/

namespace Instruction

/-- The accesses that find the address that an instruction works on. -/
def resolution (rule : IndirectRule) (registers : Registers) (memory : Memory)
    (instruction : Instruction) : List Access :=
  match instruction.mode with
  | none => []
  | some mode => mode.resolution rule registers memory

theorem isData_eq_false_of_mem_resolution (rule : IndirectRule) (registers : Registers)
    (memory : Memory) (instruction : Instruction) :
    ∀ access ∈ instruction.resolution rule registers memory, access.purpose.isData = false := by
  unfold resolution
  cases instruction.mode with
  | none => exact fun _ haccess ↦ nomatch haccess
  | some mode => exact mode.isData_eq_false_of_mem_resolution rule registers memory

/-- The accesses to the data of an instruction, for its effective address and the byte there. -/
def dataAccesses (registers : Registers) (address : UInt16) (operand : UInt8) :
    Instruction → List Access
  | .operate operation _ => [⟨.read, address, operand, .data operation⟩]
  | .store kind _ => [⟨.write, address, registers.get kind.source, .store⟩]
  | .shift _ => [⟨.read, address, operand, .shift⟩, ⟨.write, address, operand <<< 1, .shift⟩]
  | .act _ | .brk => []

/-- An instruction finds its effective address first, and then accesses its data. -/
theorem accesses_execute {α : Type} (rule : IndirectRule) (registers : Registers)
    (instruction : Instruction) (result : Registers → α) (memory : Memory) :
    (instruction.execute rule registers fun left ↦ .done (result left)).accesses memory =
      let address := instruction.effectiveAddress rule registers memory
      instruction.resolution rule registers memory ++
        instruction.dataAccesses registers address (memory.read address) := by
  cases instruction with
  | operate operation mode =>
    rw [execute, Mode.accesses_resolve]
    rfl
  | store kind mode =>
    rw [execute, Mode.accesses_resolve]
    rfl
  | shift mode =>
    rw [execute, Mode.accesses_resolve]
    rfl
  | act action => rfl
  | brk => rfl

/-- Data is accessed at the given address, if there is a mode to give one. -/
theorem exists_mem_dataAccesses_iff {registers : Registers} {address place : UInt16}
    {operand : UInt8} {instruction : Instruction} :
    (∃ access ∈ instruction.dataAccesses registers address operand,
        access.purpose.isData = true ∧ access.address = place) ↔
      instruction.mode.isSome ∧ address = place := by
  cases instruction <;> simp [dataAccesses, mode, Purpose.isData]

end Instruction

/-! ### A turn of the processor -/

namespace Machine

/-- Whether the next call of `step` reads or writes data at an address. -/
def AccessesData (machine : Machine) (address : UInt16) : Prop :=
  ∃ access ∈ machine.frame.accesses, access.purpose.isData = true ∧ access.address = address

/-- The fetch of the opcode at the program counter. -/
def opcodeFetch (machine : Machine) : Access :=
  ⟨.read, machine.registers.pc, machine.memory.read machine.registers.pc, .opcodeFetch⟩

/-- A turn that finds an instruction fetches its opcode, finds its effective address, and accesses
its data. -/
theorem accesses_cycle_of_decode {machine : Machine} {instruction : Instruction}
    (hdecode : decode (machine.memory.read machine.registers.pc) = some instruction) :
    machine.cycle.accesses machine.memory =
      let address := machine.effectiveAddress instruction
      let registers := machine.fetched.registers
      machine.opcodeFetch ::
        (instruction.resolution machine.settings.indirect registers machine.memory ++
          instruction.dataAccesses registers address (machine.memory.read address)) := by
  rw [cycle, instructionCycle, BusProgram.accesses_read, hdecode]
  exact congrArg _ (Instruction.accesses_execute _ _ _ _ _)

/-- A turn that finds no instruction fetches the opcode alone. -/
theorem accesses_cycle_of_unsupported {machine : Machine}
    (hdecode : decode (machine.memory.read machine.registers.pc) = none) :
    machine.cycle.accesses machine.memory = [machine.opcodeFetch] := by
  rw [cycle, instructionCycle, BusProgram.accesses_read, hdecode]
  rfl

/-- An instruction accesses data exactly at the effective address of its mode. -/
theorem accessesData_iff_of_decode {machine : Machine} {instruction : Instruction}
    (hdecode : decode (machine.memory.read machine.registers.pc) = some instruction)
    (place : UInt16) :
    machine.AccessesData place ↔
      instruction.mode.isSome ∧ machine.effectiveAddress instruction = place := by
  rw [AccessesData, accesses_frame, accesses_cycle_of_decode hdecode,
    ← Instruction.exists_mem_dataAccesses_iff]
  constructor
  · rintro ⟨access, haccess, hdata, hplace⟩
    rcases List.mem_cons.mp haccess with rfl | hrest
    · exact absurd hdata Bool.false_ne_true
    · rcases List.mem_append.mp hrest with hresolution | hmem
      · rw [Instruction.isData_eq_false_of_mem_resolution _ _ _ _ access hresolution] at hdata
        cases hdata
      · exact ⟨access, hmem, hdata, hplace⟩
  · rintro ⟨access, hmem, hdata⟩
    exact ⟨access, List.mem_cons_of_mem _ (List.mem_append_right _ hmem), hdata⟩

end Machine

end Mos6502
