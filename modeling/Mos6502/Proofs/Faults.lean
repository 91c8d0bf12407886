import Mathlib.Data.List.DropRight
import Mos6502.Interface
import Mos6502.Proofs.DataAccess
import Mos6502.Proofs.Dispatch
import Mos6502.Proofs.Fetching

/-!
The errors of a step. An opcode that the table of encodings does not list is unsupported
(`Opcode.IsSupported`). A step that fetches one raises a fault which names the opcode and its place,
both in capital digits (`Fault.message_eq`), and leaves the machine as it was but for a stopped
processor behind the opcode, one more step, and the frame of the fetch if there is a trace
(`Machine.leavesFault_step`). There is no other way for a step to raise anything, not even if it
looks its opcode up in the table (`Machine.step_raises_only_faults`).
-/

set_option autoImplicit false
set_option relaxedAutoImplicit false

namespace Mos6502

/-! ### Unsupported opcodes -/

/-- Whether an opcode stands for an instruction. -/
def Opcode.IsSupported (opcode : UInt8) : Prop := ∃ instruction, (opcode, instruction) ∈ encodings

theorem decode_eq_none_iff {opcode : UInt8} :
    decode opcode = none ↔ ¬Opcode.IsSupported opcode := by
  simp only [Opcode.IsSupported, ← decode_eq_some_iff, ← Option.isSome_iff_exists,
    Option.not_isSome_iff_eq_none]

/-- The handlers refuse the row of an opcode exactly if it is the break or unsupported. -/
theorem Opcode.exists_run_execute_entry_eq_error_iff (opcode : UInt8) (rule : IndirectRule)
    (registers : Registers) (memory : Memory) :
    (∃ error, (((entry opcode).execute rule registers fun left ↦
      .done (.ok left)).run memory).1 = .error error) ↔
        opcode = 0x00 ∨ ¬IsSupported opcode := by
  simp only [Entry.run_execute_eq_error_iff]
  rw [← Option.ne_none_iff_exists', Ne, refusal?_entry_eq_none_iff, ← decode_eq_brk_iff,
    ← decode_eq_none_iff]
  cases decode opcode with
  | none => simp
  | some instruction => simp

/-! ### The wording of a fault -/

namespace Hex

/-- A hexadecimal digit as a capital letter, or as a decimal digit. -/
def capital (digit : Nat) : Char := "0123456789ABCDEF".toList.getD digit '?'

/-- The lowest digits of a number, filled up with zeros. -/
def capitals : (count : Nat) → Nat → Text
  | 0, _ => []
  | count + 1, number => capitals count (number / 16) ++ [capital (number % 16)]

theorem toUpper_digitChar : ∀ digit : Fin 16,
    (Nat.digitChar digit).toUpper = capital digit := by decide +kernel

theorem upperCase_byte (byte : UInt8) : upperCase (Hex.byte byte) = capitals 2 byte.toNat := by
  obtain ⟨high, low, hbyte, hvalue⟩ := exists_byte_eq byte
  have hhigh : (16 * high + low : Nat) / 16 % 16 = high := by omega
  have hlow : (16 * high + low : Nat) % 16 = low := by omega
  rw [hbyte, hvalue, capitals, capitals, capitals, hhigh, hlow, ← toUpper_digitChar,
    ← toUpper_digitChar]
  rfl

theorem upperCase_word (address : UInt16) :
    upperCase (Hex.word address) = capitals 4 address.toNat := by
  have hbytes : upperCase (Hex.word address) =
      upperCase (Hex.byte (highByte address)) ++ upperCase (Hex.byte (lowByte address)) := by
    rw [Hex.word, upperCase, List.map_append]
    rfl
  have hhigh : address.toNat / 256 = address.toNat / 16 / 16 := by omega
  have hsecond : address.toNat % 256 / 16 % 16 = address.toNat / 16 % 16 := by omega
  have hfirst : address.toNat % 256 % 16 = address.toNat % 16 := by omega
  rw [hbytes, upperCase_byte, upperCase_byte, toNat_highByte, toNat_lowByte]
  simp only [capitals, hhigh, hsecond, hfirst, List.append_assoc]
  rfl

end Hex

/-- A fault names its opcode in two digits and its place in four. -/
theorem Fault.message_eq (fault : Fault) :
    fault.message =
      "unsupported opcode ".toList ++ Hex.capitals 2 fault.opcode.toNat ++ " at ".toList ++
        Hex.capitals 4 fault.address.toNat := by
  unfold message
  rw [Hex.upperCase_byte, Hex.upperCase_word]

example : Fault.message ⟨0x1F, 0x80AB⟩ = "unsupported opcode 1F at 80AB".toList := by decide +kernel

namespace Machine

/-! ### What a fault leaves -/

/-- The fault of a step, if the opcode at the program counter is unsupported. -/
def faultAhead (machine : Machine) : Fault := ⟨machine.opcode, machine.registers.pc⟩

/-- The frame of a step that fetches an opcode and does nothing else. -/
def fetchFrame (machine : Machine) : Frame where
  step := machine.steps + 1
  pc := machine.registers.pc
  opcode := machine.opcode
  a := machine.registers.a
  x := machine.registers.x
  y := machine.registers.y
  sp := machine.registers.sp
  flags := machine.registers.status.pack
  events := [⟨machine.steps + 1, machine.opcodeFetch⟩]

/-- What a step leaves that raises a fault. -/
structure LeavesFault (machine next : Machine) : Prop where
  left : next =
    { machine with
      registers := { machine.registers with pc := machine.registers.pc + 1 }
      state := .faulted
      steps := machine.steps + 1
      timeline := next.timeline
      pending := [] }
  traced : machine.settings.trace = true →
    next.timeline.toList =
      (machine.timeline.toList ++ [machine.fetchFrame]).rtake machine.settings.traceLimit
  untraced : machine.settings.trace = false → next.timeline = machine.timeline

section Unsupported

variable {machine : Machine} (hrunning : machine.state = .running)
  (hunsupported : ¬Opcode.IsSupported machine.opcode)
include hrunning hunsupported

/-- The fetch is all the traffic of such a step, and the registers count only its opcode. -/
theorem frame_of_unsupported : machine.frame = machine.fetchFrame := by
  have hdecode : decode (machine.memory.read machine.registers.pc) = none :=
    decode_eq_none_iff.mpr hunsupported
  rw [frame, registers_step hrunning, run_cycle_of_unsupported hdecode,
    accesses_cycle_of_unsupported hdecode]
  rfl

theorem leavesFault_step : machine.LeavesFault machine.step.2 := by
  have hcycle := run_cycle_of_unsupported (decode_eq_none_iff.mpr hunsupported)
  constructor
  case left =>
    unfold cycle at hcycle
    rw [step_of_running machine hrunning]
    simp only [hcycle]
    rfl
  case traced =>
    intro htrace
    rw [toList_timeline_step_of_trace hrunning htrace,
      frame_of_unsupported hrunning hunsupported]
    rfl
  case untraced =>
    intro htrace
    rw [timeline_step hrunning, htrace]
    rfl

end Unsupported

/-! ### What a step raises -/

theorem resultOfStep_eq_error_iff (machine : Machine) (exception : Exception) :
    resultOfStep machine.step.1 = .error exception ↔
      (machine.state = .running ∧ ¬Opcode.IsSupported machine.opcode) ∧
        exception = .unsupported machine.faultAhead := by
  by_cases hrunning : machine.state = .running
  · rw [outcome_step_eq hrunning, ← decode_eq_none_iff, outcomeAhead]
    cases decode machine.opcode with
    | none => simp [resultOfStep, faultAhead, hrunning, eq_comm]
    | some instruction => cases instruction <;> simp [resultOfStep, Instruction.outcome]
  · simp [step_of_stopped machine hrunning, resultOfStep, hrunning]

/-- Whether faults are all that a step raises, given its response and the machine that it leaves. -/
structure RaisesOnlyFaults (machine : Machine) (response : Response) (next : Machine) : Prop where
  raises_iff : ∀ exception, response.result = .error exception ↔
    (machine.state = .running ∧ ¬Opcode.IsSupported machine.opcode) ∧
      exception = .unsupported machine.faultAhead
  message : machine.faultAhead.message =
    "unsupported opcode ".toList ++ Hex.capitals 2 machine.opcode.toNat ++ " at ".toList ++
      Hex.capitals 4 machine.registers.pc.toNat
  leaves : machine.state = .running → ¬Opcode.IsSupported machine.opcode →
    machine.LeavesFault next
  /-- The handlers refuse the rows of the break and of what is unsupported, and no others. -/
  refuses_iff : ∀ opcode rule registers memory,
    (∃ error, (((Opcode.entry opcode).execute rule registers fun left ↦
      .done (.ok left)).run memory).1 = .error error) ↔
        opcode = 0x00 ∨ ¬Opcode.IsSupported opcode
  /-- The handlers that are given rows of the table raise no errors. -/
  handlers : machine.tableStep = .ok machine.step

/-- A step raises a fault where a running machine finds an unsupported opcode, and nothing else. -/
theorem step_raises_only_faults (machine : Machine) :
    ∃ response next, machine.perform .step = some (response, next) ∧
      machine.RaisesOnlyFaults response next := by
  refine ⟨{ result := resultOfStep machine.step.1 }, machine.step.2, rfl, ?_⟩
  constructor
  case raises_iff => exact machine.resultOfStep_eq_error_iff
  case message => exact Fault.message_eq machine.faultAhead
  case leaves => exact leavesFault_step
  case refuses_iff => exact Opcode.exists_run_execute_entry_eq_error_iff
  case handlers => exact machine.tableStep_eq

end Machine

end Mos6502
