import Mos6502.Proofs.DataSheet
import Mos6502.Proofs.Fetching
import Mos6502.Proofs.Recording
import Mos6502.Proofs.Requests

/-!
The state of a machine and its flags, over all requests in a row. The break mark is set while the
machine is halted and at no other time, the reserved bit and the interrupt flag are always set, and
the frames show the flags accordingly (`Machine.WellFlagged`). Steps keep this, and so does a reset,
hence it holds of every machine that comes of a new one (`Machine.wellFlagged_of_reachable`).

`Machine.stateSound_of_reachable` adds how the state changes. A step that fetches a break halts the
machine, one that fetches an opcode without an instruction stops it by a fault, and only a reset
makes a stopped machine run again.
-/

set_option autoImplicit false
set_option relaxedAutoImplicit false

namespace Mos6502

/-! ### Bits -/

/-- A byte in eight binary digits, the highest first. -/
def binaryDigits (byte : UInt8) : Text := (Nat.toDigits 2 byte.toNat).leftpad 8 '0'

namespace Status

theorem digits_unpack : ∀ code : Fin 256, (UInt8.ofNat code).toNat.testBit 5 = true →
    (unpack (UInt8.ofNat code)).digits = binaryDigits (UInt8.ofNat code) := by
  decide +kernel

theorem testBit_pack (status : Status) :
    status.pack.toNat.testBit 5 = true ∧ status.pack.toNat.testBit 4 = status.breakMark ∧
      status.pack.toNat.testBit 2 = status.interruptDisable := by
  obtain ⟨negative, overflow, reserved, breakMark, decimalMode, interrupt, zero, carry⟩ := status
  revert negative overflow reserved breakMark decimalMode interrupt zero carry
  decide +kernel

/-- The digits of the flags are those of the packed byte, if the reserved bit is set. -/
theorem digits_eq_binaryDigits_pack (status : Status) (hreserved : status.reserved = true) :
    status.digits = binaryDigits status.pack := by
  have hdigits := digits_unpack ⟨status.pack.toNat, status.pack.toNat_lt⟩
  rw [UInt8.ofNat_toNat, unpack_pack] at hdigits
  have hsame : { status with reserved := true } = status := by rw [← hreserved]
  rw [← hdigits status.testBit_pack.1, hsame]

/-- Whether flags that no result reaches are kept, once they are set. -/
structure KeepsModes (before after : Status) : Prop where
  decimalMode : before.decimalMode = true → after.decimalMode = true
  interruptDisable : before.interruptDisable = true → after.interruptDisable = true
  reserved : before.reserved = true → after.reserved = true

theorem KeepsModes.refl (status : Status) : status.KeepsModes status := ⟨id, id, id⟩

end Status

/-- Whether a frame shows the flags of an instruction: the reserved bit and the interrupt flag are
set, and the break mark tells whether the instruction was a break. -/
structure Frame.WellFlagged (frame : Frame) : Prop where
  reserved : frame.flags.toNat.testBit 5 = true
  interruptDisable : frame.flags.toNat.testBit 2 = true
  breakMark : frame.flags.toNat.testBit 4 = true ↔ frame.opcode = 0x00

/-! ### One step -/

namespace Instruction

variable (instruction : Instruction) (registers : Registers) (operand : UInt8)

theorem keepsModes_apply :
    registers.status.KeepsModes (instruction.apply registers operand).status := by
  by_cases hbrk : instruction = .brk
  · subst hbrk
    exact ⟨id, id, id⟩
  · obtain ⟨hdecimal, hinterrupt, -, hreserved⟩ :=
      instruction.modeFlags_apply registers operand hbrk
    constructor
    case decimalMode => exact fun hset ↦ by rw [hdecimal, hset, Bool.or_true]
    case interruptDisable => exact fun hset ↦ by rw [hinterrupt, hset, Bool.or_true]
    case reserved => exact fun hset ↦ by rw [hreserved, hset]

theorem breakMark_apply :
    (instruction.apply registers operand).status.breakMark = true ↔
      instruction = .brk ∨ registers.status.breakMark = true := by
  by_cases hbrk : instruction = .brk
  · subst hbrk
    exact iff_of_true rfl (.inl rfl)
  · obtain ⟨-, -, hbreak, -⟩ := instruction.modeFlags_apply registers operand hbrk
    rw [hbreak, or_iff_right hbrk]

end Instruction

namespace Machine

section Running

variable {machine : Machine} (hrunning : machine.state = .running)
include hrunning

theorem keepsModes_step :
    machine.registers.status.KeepsModes machine.step.2.registers.status := by
  cases hdecode : decode (machine.memory.read machine.registers.pc) with
  | none =>
    rw [registers_step hrunning, run_cycle_of_unsupported hdecode]
    exact .refl _
  | some instruction =>
    rw [registers_step_of_decode hrunning hdecode]
    exact instruction.keepsModes_apply machine.fetched.registers _

/-- A step marks a break, and leaves the mark otherwise. -/
theorem breakMark_step :
    machine.step.2.registers.status.breakMark = true ↔
      machine.opcode = 0x00 ∨ machine.registers.status.breakMark = true := by
  rw [← decode_eq_brk_iff, opcode]
  cases hdecode : decode (machine.memory.read machine.registers.pc) with
  | none =>
    rw [registers_step hrunning, run_cycle_of_unsupported hdecode]
    exact (or_iff_right (Option.some_ne_none _).symm).symm
  | some instruction =>
    rw [registers_step_of_decode hrunning hdecode, Option.some.injEq]
    exact instruction.breakMark_apply machine.fetched.registers _

end Running

/-! ### The invariant -/

/-- Whether the flags of a machine tell its state, and its frames show the flags. -/
structure WellFlagged (machine : Machine) : Prop where
  breakMark : machine.registers.status.breakMark = true ↔ machine.state = .halted
  reserved : machine.registers.status.reserved = true
  interruptDisable : machine.registers.status.interruptDisable = true
  frames : ∀ frame ∈ machine.timeline.toList, frame.WellFlagged

namespace WellFlagged

theorem of_ofMemory {settings : Settings} {memory : Option Memory} {machine : Machine}
    (hstart : ofMemory settings memory = .ok machine) : machine.WellFlagged := by
  cases memory with
  | none => cases hstart
  | some memory =>
    cases hstart
    exact {
      breakMark := iff_of_false Bool.false_ne_true RunState.noConfusion
      reserved := rfl
      interruptDisable := rfl
      frames := fun _ hframe ↦ absurd hframe List.not_mem_nil }

variable {machine : Machine} (hflagged : machine.WellFlagged)
include hflagged

theorem reset : machine.reset.WellFlagged where
  breakMark := by simp [Machine.reset]
  reserved := hflagged.reserved
  interruptDisable := rfl
  frames := fun _ hframe ↦ absurd hframe List.not_mem_nil

theorem of_leavesProcessor {next : Machine} (hleaves : machine.LeavesProcessor next) :
    next.WellFlagged where
  breakMark := by rw [hleaves.registers, hleaves.state, hflagged.breakMark]
  reserved := by rw [hleaves.registers, hflagged.reserved]
  interruptDisable := by rw [hleaves.registers, hflagged.interruptDisable]
  frames := fun frame hframe ↦ hflagged.frames frame (hleaves.frames hframe)

/-- The mark of a step that a running machine makes is that of its opcode. -/
theorem breakMark_step_iff (hrunning : machine.state = .running) :
    machine.step.2.registers.status.breakMark = true ↔ machine.opcode = 0x00 := by
  rw [breakMark_step hrunning, hflagged.breakMark, hrunning]
  exact or_iff_left RunState.noConfusion

theorem frame (hrunning : machine.state = .running) : machine.frame.WellFlagged := by
  obtain ⟨hreserved, hbreak, hinterrupt⟩ := machine.step.2.registers.status.testBit_pack
  constructor
  case reserved => exact hreserved
  case interruptDisable =>
    exact hinterrupt.trans ((keepsModes_step hrunning).interruptDisable hflagged.interruptDisable)
  case breakMark =>
    exact (iff_of_eq (congrArg (· = true) hbreak)).trans (hflagged.breakMark_step_iff hrunning)

theorem step : machine.step.2.WellFlagged := by
  by_cases hrunning : machine.state = .running
  · have hmodes := keepsModes_step hrunning
    constructor
    case breakMark =>
      rw [hflagged.breakMark_step_iff hrunning, halted_step_iff hrunning, decode_eq_brk_iff]
    case reserved => exact hmodes.reserved hflagged.reserved
    case interruptDisable => exact hmodes.interruptDisable hflagged.interruptDisable
    case frames =>
      intro frame hframe
      rw [timeline_step hrunning] at hframe
      split at hframe
      · rw [Timeline.toList_record] at hframe
        rcases List.mem_append.mp (List.mem_of_mem_drop hframe) with hearlier | hnew
        · exact hflagged.frames frame hearlier
        · exact List.mem_singleton.mp hnew ▸ hflagged.frame hrunning
      · exact hflagged.frames frame hframe
  · rw [step_of_stopped machine hrunning]
    exact hflagged

theorem after (count : Nat) : (machine.after count).WellFlagged := by
  induction count with
  | zero => exact hflagged
  | succ count ih => exact ih.step

theorem startFor (request : Request) : (machine.startFor request).WellFlagged := by
  rcases machine.startFor_eq_or request with hsame | ⟨loaded, hleaves, hreset⟩
  · rw [hsame]
    exact hflagged
  · rw [hreset]
    exact (hflagged.of_leavesProcessor hleaves).reset

theorem of_course {next : Machine} {request : Request} (hcourse : machine.Course request next) :
    next.WellFlagged := by
  cases hcourse with
  | steps count hnext => exact hnext ▸ (hflagged.startFor request).after count
  | aside _ hleaves => exact hflagged.of_leavesProcessor hleaves

end WellFlagged

theorem wellFlagged_of_reachable {machine : Machine} (hreachable : machine.Reachable) :
    machine.WellFlagged := by
  induction hreachable with
  | start hstart => exact .of_ofMemory hstart
  | perform _ hperform ih => exact ih.of_course (course_of_perform hperform)

/-- The flags in the register line are the packed byte in binary. -/
theorem WellFlagged.binaryDigits_infix_registerLine {machine : Machine}
    (hflagged : machine.WellFlagged) :
    ("  NV1BDIZC=".toList ++ binaryDigits machine.registers.status.pack ++ "  ".toList) <:+:
      registerLine machine := by
  rw [← Status.digits_eq_binaryDigits_pack _ hflagged.reserved]
  have hpart (front label digits blank state steps count : Text) :
      (label ++ digits ++ blank) <:+:
        front ++ label ++ digits ++ blank ++ state ++ steps ++ count :=
    ⟨front, state ++ steps ++ count, by simp only [List.append_assoc]⟩
  exact hpart _ _ _ _ _ _ _

/-! ### Changes of the state -/

/-- Whether the steps of a machine come to one that fetches an opcode of some kind, and that step
leaves the machine given. -/
def EndsAt (start : Machine) (kind : UInt8 → Prop) (next : Machine) : Prop :=
  ∃ last, (start.after last).state = .running ∧ kind (start.after last).opcode ∧
    next = start.after (last + 1)

/-- What a running machine leaves once it has stopped is left by the last step that it made. -/
theorem exists_last_call {start : Machine} (hrunning : start.state = .running) {count : Nat}
    (hstopped : (start.after count).state ≠ .running) :
    ∃ last, (start.after last).state = .running ∧ start.after count = start.after (last + 1) := by
  induction count with
  | zero => exact absurd hrunning hstopped
  | succ count ih =>
    by_cases hbefore : (start.after count).state = .running
    · exact ⟨count, hbefore, rfl⟩
    · obtain ⟨last, hlast, hsame⟩ := ih hbefore
      exact ⟨last, hlast, by rw [after_succ, step_of_stopped _ hbefore, hsame]⟩

/-- No step clears the decimal flag. -/
theorem decimalMode_after {machine : Machine}
    (hset : machine.registers.status.decimalMode = true) (count : Nat) :
    (machine.after count).registers.status.decimalMode = true := by
  induction count with
  | zero => exact hset
  | succ count ih =>
    by_cases hrunning : (machine.after count).state = .running
    · exact (keepsModes_step hrunning).decimalMode ih
    · rw [after_succ, step_of_stopped _ hrunning]
      exact ih

theorem decimalMode_startFor {machine : Machine}
    (hset : machine.registers.status.decimalMode = true) (request : Request) :
    (machine.startFor request).registers.status.decimalMode = true := by
  rcases machine.startFor_eq_or request with hsame | ⟨loaded, hleaves, hreset⟩
  · rw [hsame, hset]
  · rw [hreset]
    exact (congrArg (·.status.decimalMode) hleaves.registers).trans hset

namespace Course

variable {machine next : Machine} {request : Request} (hcourse : machine.Course request next)
include hcourse

/-- A request that starts from a running machine leaves it in some other state exactly if its last
step fetches an opcode of the kind that leads there. -/
theorem state_eq_iff {state : RunState} (hstate : state ≠ .running) {kind : UInt8 → Prop}
    (hkind : ∀ machine : Machine, machine.state = .running →
      (machine.step.2.state = state ↔ kind machine.opcode))
    (hrunning : (machine.startFor request).state = .running) :
    next.state = state ↔ (machine.startFor request).EndsAt kind next := by
  constructor
  · intro hnext
    cases hcourse with
    | steps count hleft =>
      have hstopped : ((machine.startFor request).after count).state ≠ .running := by
        rw [← hleft, hnext]
        exact hstate
      obtain ⟨last, hlast, hsame⟩ := exists_last_call hrunning hstopped
      refine ⟨last, hlast, (hkind _ hlast).mp ?_, hleft.trans hsame⟩
      rw [← after_succ, ← hsame, ← hleft, hnext]
    | aside hrestarted hleaves =>
      rw [startFor, hrestarted, Option.getD_none, ← hleaves.state, hnext] at hrunning
      exact absurd hrunning hstate
  · rintro ⟨last, hlast, hopcode, rfl⟩
    exact (hkind _ hlast).mpr hopcode

theorem decimalMode (hset : machine.registers.status.decimalMode = true) :
    next.registers.status.decimalMode = true := by
  cases hcourse with
  | steps count hnext => exact hnext ▸ decimalMode_after (decimalMode_startFor hset request) count
  | aside _ hleaves => rw [hleaves.registers, hset]

/-- A stopped machine keeps its state unless it is started anew. -/
theorem state_eq_of_stopped (hstopped : machine.state ≠ .running)
    (hrestarted : machine.restarted? request = none) : next.state = machine.state := by
  cases hcourse with
  | steps count hnext =>
    rw [hnext, startFor, hrestarted, Option.getD_none, after_of_stopped hstopped]
  | aside _ hleaves => exact hleaves.state

end Course

/-- What a machine that does not run reports to a request for steps, whatever the budget of a run as
long as there is one. -/
def idleValue (machine : Machine) : Request → Option Value
  | .step | .tryStep => some (.truth false)
  | .run (_ + 1) => some (.count 0)
  | .runUntil _ _ => some (.stopped machine.state.stopReason 0)
  | _ => none

/-- A machine that does not run stays as it is when it is asked for steps. -/
theorem perform_of_stopped {machine : Machine} (hstopped : machine.state ≠ .running)
    {request : Request} {value : Value} (hvalue : value ∈ machine.idleValue request) :
    machine.perform request = some ({ result := .ok value }, machine) := by
  cases request with
  | step | tryStep =>
    cases hvalue
    rw [perform, step_of_stopped machine hstopped]
    rfl
  | run budget =>
    cases budget with
    | zero => cases hvalue
    | succ budget =>
      cases hvalue
      rw [perform, run_of_stopped hstopped]
      rfl
  | runUntil breakpoints limit =>
    cases hvalue
    rw [perform, runUntil_of_stopped hstopped]
    rfl
  | _ => cases hvalue

/-! ### All requests -/

/-- Whether the state of a machine and its flags are as they should be, now and through all requests
to come. -/
structure StateSound (machine : Machine) : Prop where
  flags : machine.WellFlagged
  shown : ("  NV1BDIZC=".toList ++ binaryDigits machine.registers.status.pack ++ "  ".toList) <:+:
    registerLine machine
  halted_step_iff : machine.state = .running →
    (machine.step.2.state = .halted ↔ machine.opcode = 0x00)
  faulted_step_iff : machine.state = .running →
    (machine.step.2.state = .faulted ↔ decode machine.opcode = none)
  /-- A request leaves a machine halted that ran, or was started anew, exactly if its last step
  fetched a break. -/
  halted_iff : ∀ request response next, machine.perform request = some (response, next) →
    (machine.startFor request).state = .running →
      (next.state = .halted ↔ (machine.startFor request).EndsAt (· = 0x00) next)
  faulted_iff : ∀ request response next, machine.perform request = some (response, next) →
    (machine.startFor request).state = .running →
      (next.state = .faulted ↔ (machine.startFor request).EndsAt (decode · = none) next)
  running_of_restarted : ∀ request, ∀ start ∈ machine.restarted? request, start.state = .running
  /-- A stopped machine answers requests for steps without any change. -/
  idle : machine.state ≠ .running → ∀ request, ∀ value ∈ machine.idleValue request,
    machine.perform request = some ({ result := .ok value }, machine)
  stays_stopped : machine.state ≠ .running → ∀ requests : List Request,
    (∀ request ∈ requests, ¬request.Restarts) →
      ∀ answer ∈ machine.trail requests, answer.2.state = machine.state
  stays_decimal : machine.registers.status.decimalMode = true → ∀ requests : List Request,
    ∀ answer ∈ machine.trail requests, answer.2.registers.status.decimalMode = true

/-- The state and the flags are sound in every machine that comes of a new one through requests. -/
theorem stateSound_of_reachable (machine : Machine) (hreachable : machine.Reachable) :
    machine.StateSound := by
  have hflagged := wellFlagged_of_reachable hreachable
  constructor
  case flags => exact hflagged
  case shown => exact hflagged.binaryDigits_infix_registerLine
  case halted_step_iff =>
    exact fun hrunning ↦ (Machine.halted_step_iff hrunning).trans decode_eq_brk_iff
  case faulted_step_iff => exact Machine.faulted_step_iff
  case halted_iff =>
    intro request response next hperform
    exact (course_of_perform hperform).state_eq_iff RunState.noConfusion fun _ hrunning ↦
      (Machine.halted_step_iff hrunning).trans decode_eq_brk_iff
  case faulted_iff =>
    intro request response next hperform
    exact (course_of_perform hperform).state_eq_iff RunState.noConfusion fun _ hrunning ↦
      Machine.faulted_step_iff hrunning
  case running_of_restarted =>
    intro request start hstart
    obtain ⟨loaded, -, rfl⟩ := exists_eq_reset_of_restarted? hstart
    rfl
  case idle => exact fun hstopped request value hvalue ↦ perform_of_stopped hstopped hvalue
  case stays_stopped =>
    intro hstopped requests hrequests
    refine forall_mem_trail (fun left ↦ left.state = machine.state) ?_ rfl
    intro other next request hrequest response hperform hsame
    have hnone : other.restarted? request = none := by
      refine Option.eq_none_iff_forall_not_mem.mpr fun start hstart ↦ ?_
      exact hrequests request hrequest ⟨other, start, hstart⟩
    exact ((course_of_perform hperform).state_eq_of_stopped (hsame ▸ hstopped) hnone).trans hsame
  case stays_decimal =>
    intro hset requests
    refine forall_mem_trail (fun left ↦ left.registers.status.decimalMode = true) ?_ hset
    exact fun _ _ _ _ _ hperform ↦ (course_of_perform hperform).decimalMode

/-- A new machine that loads and runs a program of two instructions. It sets the decimal flag, and
halts. -/
theorem stateSound_of_reachable_of_break :
    let fresh : Machine := { settings := { trace := true } }
    ∃ response machine, fresh.perform (.loadAndRun 2 [0xF8, 0x00]) = some (response, machine) ∧
      machine.Reachable ∧ machine.StateSound ∧ machine.state = .halted ∧
      machine.registers.status.pack = 0x3C ∧
      machine.timeline.toList.map (fun frame ↦ (frame.opcode, frame.flags)) =
        [(0xF8, 0x2C), (0x00, 0x3C)] := by
  intro fresh
  let left := fresh.perform (.loadAndRun 2 [0xF8, 0x00])
  have hleft : left.map (fun answer ↦ (answer.2.state, answer.2.registers.status.pack,
      answer.2.timeline.toList.map fun frame ↦ (frame.opcode, frame.flags))) =
        some (.halted, 0x3C, [(0xF8, 0x2C), (0x00, 0x3C)]) := by
    decide +kernel
  obtain ⟨⟨response, machine⟩, hperform, hmachine⟩ := Option.map_eq_some_iff.mp hleft
  simp only [Prod.mk.injEq] at hmachine
  obtain ⟨hstate, hpack, hframes⟩ := hmachine
  have hstart : ofMemory { trace := true } (some Memory.blank) = .ok fresh := rfl
  have hreachable : machine.Reachable := .perform (.start hstart) hperform
  exact ⟨response, machine, hperform, hreachable, stateSound_of_reachable machine hreachable,
    hstate, hpack, hframes⟩

end Machine

end Mos6502
