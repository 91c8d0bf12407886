import Mos6502.Proofs.DataAccess
import Mos6502.Proofs.Encodings
import Mos6502.Proofs.TraceInvariant

/-!
The pattern of the bus traffic of a step: which way its bytes pass, at which addresses, and in
which order. After the opcode come the operand bytes, then the bytes of the pointer where there is
one, and last the data at the effective address (`Machine.passages`).

The two rules for the indirect modes have patterns of their own. The legacy rule reads four bytes
for the pointer of `(indirect,X)`, those of its high byte first. For `(indirect),Y` it reads no
pointer, and takes the operand bytes in reverse.

`Machine.frame_shows_pattern` says that the frame of a step has this traffic and no other.
-/

set_option autoImplicit false
set_option relaxedAutoImplicit false

namespace Mos6502

/-- The way of a byte over the bus, and its address. -/
def Access.passage (access : Access) : Direction × UInt16 := (access.direction, access.address)

/-- The ways of the data of an instruction. The data of an immediate instruction is its operand
byte, which passes as such. -/
def Instruction.dataDirections : Instruction → List Direction
  | .operate _ .immediate => []
  | .operate _ _ => [.read]
  | .store _ _ => [.write]
  | .shift _ => [.read, .write]
  | .act _ | .brk => []

/-- The operand byte of an immediate instruction is not written. -/
theorem Opcode.dataDirections_of_immediate : ∀ entry ∈ encodings,
    entry.2.mode = some .immediate → entry.2.dataDirections = [] := by
  decide +kernel

namespace Machine

section Pattern

variable (machine : Machine)

/-! ### The pattern -/

/-- The addresses of the operand bytes, in the order in which they are read. -/
def operandPlaces : List UInt16 :=
  let pc := machine.registers.pc
  match modeOf machine.opcode, machine.settings.indirect with
  | some .indirectY, .legacy => [pc + 2, pc + 1]
  | _, _ =>
      (List.range (instructionLength machine.opcode - 1)).map fun index ↦
        pc + UInt16.ofNat (index + 1)

/-- The addresses of the bytes that a pointer is made of, in the order in which they are read. -/
def pointerPlaces : List UInt16 :=
  let operand := machine.memory.read (machine.registers.pc + 1)
  let pointer := operand + machine.registers.x
  match modeOf machine.opcode, machine.settings.indirect with
  | some .indirectX, .canonical => [pointer.toUInt16, (pointer + 1).toUInt16]
  | some .indirectX, .legacy =>
      [(pointer + 1).toUInt16, (pointer + 1).toUInt16 + 1, pointer.toUInt16, pointer.toUInt16 + 1]
  | some .indirectY, .canonical => [operand.toUInt16, (operand + 1).toUInt16]
  | _, _ => []

/-- The passages of the data, all of them at the effective address. -/
def dataPassages : List (Direction × UInt16) :=
  match decode machine.opcode with
  | none => []
  | some instruction =>
      instruction.dataDirections.map fun direction ↦
        (direction, machine.effectiveAddress instruction)

/-- All passages of the next step. -/
def passages : List (Direction × UInt16) :=
  (.read, machine.registers.pc) ::
    ((machine.operandPlaces ++ machine.pointerPlaces).map (Prod.mk .read) ++ machine.dataPassages)

end Pattern

/-! ### The traffic follows the pattern -/

section Places

variable {machine : Machine}

theorem operandPlaces_of_no_mode (hmode : modeOf machine.opcode = none) :
    machine.operandPlaces = [] := by
  simp [operandPlaces, instructionLength_eq, hmode, Mode.widthOf]

theorem pointerPlaces_of_no_mode (hmode : modeOf machine.opcode = none) :
    machine.pointerPlaces = [] := by
  simp [pointerPlaces, hmode]

theorem operandPlaces_of_immediate (hmode : modeOf machine.opcode = some .immediate) :
    machine.operandPlaces = [machine.registers.pc + 1] := by
  simp [operandPlaces, instructionLength_eq, hmode, Mode.widthOf, Mode.operandWidth,
    List.range_succ]

theorem pointerPlaces_of_immediate (hmode : modeOf machine.opcode = some .immediate) :
    machine.pointerPlaces = [] := by
  simp [pointerPlaces, hmode]

end Places

section Decoded

variable {machine : Machine} {instruction : Instruction}
  (hdecode : decode machine.opcode = some instruction)
include hdecode

theorem modeOf_opcode : modeOf machine.opcode = instruction.mode := by
  rw [modeOf, hdecode, Option.bind_some]

/-- All that an immediate instruction does with its operand byte is to read it. -/
theorem eq_operate_of_immediate (hmode : instruction.mode = some .immediate) :
    ∃ operation, instruction = .operate operation .immediate := by
  have hlisted := Opcode.dataDirections_of_immediate _ (decode_eq_some_iff.mp hdecode) hmode
  cases instruction with
  | operate operation mode => exact ⟨operation, congrArg _ (Option.some.inj hmode)⟩
  | store | shift => cases hlisted
  | act | brk => cases hmode

/-- The way to the effective address: the operand bytes, and then the pointer. An immediate
instruction leaves its operand byte to be read as data. -/
theorem passages_resolution {mode : Mode} (hmode : instruction.mode = some mode)
    (himmediate : mode ≠ .immediate) :
    (instruction.resolution machine.settings.indirect machine.fetched.registers
        machine.memory).map Access.passage =
      (machine.operandPlaces ++ machine.pointerPlaces).map (Prod.mk .read) := by
  have hmodeOf : modeOf machine.opcode = some mode := (modeOf_opcode hdecode).trans hmode
  have hbehind : machine.registers.pc + 1 + 1 = machine.registers.pc + 2 := UInt16.add_assoc _ _ _
  cases hrule : machine.settings.indirect <;> cases mode
  all_goals try exact absurd rfl himmediate
  all_goals
    simp [operandPlaces, pointerPlaces, hmodeOf, hrule, hmode, hbehind, instructionLength_eq,
      Mode.widthOf, Mode.operandWidth, List.range_succ, Instruction.resolution, Mode.resolution,
      Mode.resolve, BusProgram.readWord, Access.passage, fetched, Registers.advance]

/-- The data passes as the instruction says. -/
theorem passages_dataAccesses (himmediate : instruction.mode ≠ some .immediate) (operand : UInt8) :
    (instruction.dataAccesses machine.fetched.registers (machine.effectiveAddress instruction)
        operand).map Access.passage =
      machine.dataPassages := by
  rw [dataPassages, hdecode]
  cases instruction with
  | operate operation mode => cases mode <;> first | rfl | exact absurd rfl himmediate
  | store | shift | act | brk => rfl

/-- The traffic behind the opcode. -/
theorem passages_behind (operand : UInt8) :
    (instruction.resolution machine.settings.indirect machine.fetched.registers
          machine.memory).map Access.passage ++
        (instruction.dataAccesses machine.fetched.registers (machine.effectiveAddress instruction)
          operand).map Access.passage =
      (machine.operandPlaces ++ machine.pointerPlaces).map (Prod.mk .read) ++
        machine.dataPassages := by
  cases hmode : instruction.mode with
  | none =>
    have hmodeOf : modeOf machine.opcode = none := (modeOf_opcode hdecode).trans hmode
    rw [operandPlaces_of_no_mode hmodeOf, pointerPlaces_of_no_mode hmodeOf,
      passages_dataAccesses hdecode (by simp [hmode]), Instruction.resolution, hmode]
    rfl
  | some mode =>
    by_cases himmediate : mode = .immediate
    · subst himmediate
      have hmodeOf : modeOf machine.opcode = some .immediate := (modeOf_opcode hdecode).trans hmode
      obtain ⟨operation, rfl⟩ := eq_operate_of_immediate hdecode hmode
      rw [operandPlaces_of_immediate hmodeOf, pointerPlaces_of_immediate hmodeOf, dataPassages,
        hdecode]
      rfl
    · rw [passages_resolution hdecode hmode himmediate,
        passages_dataAccesses hdecode (by simpa [hmode] using himmediate)]

end Decoded

/-- The traffic of a turn of the processor follows the pattern. -/
theorem passages_cycle (machine : Machine) :
    (machine.cycle.accesses machine.memory).map Access.passage = machine.passages := by
  cases hdecode : decode machine.opcode with
  | none =>
    have hmode : modeOf machine.opcode = none := by rw [modeOf, hdecode, Option.bind_none]
    rw [accesses_cycle_of_unsupported hdecode, passages, operandPlaces_of_no_mode hmode,
      pointerPlaces_of_no_mode hmode, dataPassages, hdecode]
    rfl
  | some instruction =>
    rw [accesses_cycle_of_decode hdecode, List.map_cons, List.map_append, passages,
      ← passages_behind hdecode]
    rfl

/-- The bus traffic of a step by the opcode, the operand byte and the rule for the indirect modes.
If a running machine traces and may keep a frame, its step records one behind the others. All the
events of that frame, in their order, follow the pattern. -/
theorem frame_shows_pattern {machine : Machine} (hrunning : machine.state = .running)
    (htrace : machine.settings.trace = true) (hlimit : 0 < machine.settings.traceLimit) :
    ∃ earlier frame, machine.step.2.timeline.toList = earlier ++ [frame] ∧
      earlier <:+ machine.timeline.toList ∧
      frame.pc = machine.registers.pc ∧ frame.opcode = machine.opcode ∧
      frame.accesses.map Access.passage = machine.passages := by
  have hframes := toList_timeline_step_of_pos hrunning htrace hlimit
  refine ⟨_, machine.frame, hframes, List.drop_suffix _ _, rfl, rfl, ?_⟩
  rw [accesses_frame, passages_cycle]

/-- A store by the legacy rule of `(indirect,X)`, with the opcode at the end of the memory and the
pointer at the end of the zero page. -/
theorem frame_shows_pattern_of_legacy_store :
    let machine : Machine :=
      { registers := { x := 0x0F, pc := 0xFFFF }
        memory := ((Memory.blank.write 0xFFFF 0x81).write 0x0000 0xF0).write 0x00FF 0x34
        settings := { indirect := .legacy, trace := true, traceLimit := 1 } }
    machine.state = .running ∧ machine.settings.trace = true ∧ 0 < machine.settings.traceLimit ∧
      machine.passages =
        [(.read, 0xFFFF), (.read, 0x0000), (.read, 0x0000), (.read, 0x0001), (.read, 0x00FF),
          (.read, 0x0100), (.write, 0xF034)] ∧
      ∃ earlier frame, machine.step.2.timeline.toList = earlier ++ [frame] ∧
        earlier <:+ machine.timeline.toList ∧
        frame.pc = machine.registers.pc ∧ frame.opcode = machine.opcode ∧
        frame.accesses.map Access.passage = machine.passages :=
  ⟨rfl, rfl, by decide, by decide +kernel, frame_shows_pattern rfl rfl (by decide)⟩

end Machine

end Mos6502
