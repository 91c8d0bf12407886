import Mathlib.Data.List.Chain
import Mos6502.Machine.Program
import Mos6502.Proofs.Fetching
import Mos6502.Proofs.Recording
import Mos6502.Proofs.Stopping

/-!
What the frames of a timeline say of one another and of the machine. In an intact trace
(`Machine.IntactTrace`) each frame tells of the instruction behind the one of the frame before, and
the last frame tells of the instruction that left the machine as it is. There are no gaps, and no
frames at all while the machine does not trace.

A step keeps a trace intact (`Machine.IntactTrace.step`), even when the oldest frames drop out.
Hence all calls of `step` in a row keep it (`Machine.IntactTrace.after`), and so does a run, which
leaves the machine after some number of calls (`Machine.exists_runUntil_eq_after`).
-/

set_option autoImplicit false
set_option relaxedAutoImplicit false

namespace Mos6502

/-- If any frames may be kept, those after a step are the last ones before it and its own. -/
theorem Machine.toList_timeline_step_of_pos {machine : Machine}
    (hrunning : machine.state = .running) (htrace : machine.settings.trace = true)
    (hlimit : 0 < machine.settings.traceLimit) :
    machine.step.2.timeline.toList =
      machine.timeline.toList.drop
        (machine.timeline.toList.length + 1 - machine.settings.traceLimit) ++ [machine.frame] := by
  rw [toList_timeline_step_of_trace hrunning htrace, List.length_append, List.length_singleton,
    List.drop_append_of_le_length (by omega)]

/-! ### Frames in a row -/

namespace Frame

/-- Whether a frame tells of an instruction that completes, and another frame of the one behind
it. -/
structure Precedes (frame next : Frame) : Prop where
  step : next.step = frame.step + 1
  pc : next.pc = frame.pc + UInt16.ofNat (instructionLength frame.opcode)
  supported : decode frame.opcode ≠ none
  goesOn : decode frame.opcode ≠ some .brk

/-- Whether a frame tells of the instruction that left a machine as it is. -/
structure Leaves (frame : Frame) (machine : Machine) : Prop where
  step : frame.step = machine.steps
  pc : machine.registers.pc = frame.pc + UInt16.ofNat (instructionLength frame.opcode)
  a : frame.a = machine.registers.a
  x : frame.x = machine.registers.x
  y : frame.y = machine.registers.y
  sp : frame.sp = machine.registers.sp
  flags : frame.flags = machine.registers.status.pack
  halted : decode frame.opcode = some .brk ↔ machine.state = .halted
  faulted : decode frame.opcode = none ↔ machine.state = .faulted

/-- The frame of a step tells of the instruction that left the machine after it. -/
theorem leaves_step {machine : Machine} (hrunning : machine.state = .running) :
    machine.frame.Leaves machine.step.2 where
  step := (Machine.steps_step hrunning).symm
  pc := Machine.pc_step hrunning
  a := rfl
  x := rfl
  y := rfl
  sp := rfl
  flags := rfl
  halted := (Machine.halted_step_iff hrunning).symm
  faulted := (Machine.faulted_step_iff hrunning).symm

/-- If the machine still runs, the next step goes on behind the frame. -/
theorem Leaves.precedes {frame : Frame} {machine : Machine} (hleaves : frame.Leaves machine)
    (hrunning : machine.state = .running) : frame.Precedes machine.frame where
  step := by rw [hleaves.step]; rfl
  pc := hleaves.pc
  supported := fun hnone ↦ by
    rw [hleaves.faulted, hrunning] at hnone
    cases hnone
  goesOn := fun hbrk ↦ by
    rw [hleaves.halted, hrunning] at hbrk
    cases hbrk

end Frame

namespace Machine

/-- Whether the trace of a machine is intact, with the limit of frames that the monitor sets. -/
structure IntactTrace (machine : Machine) : Prop where
  limit : machine.settings.traceLimit = 4096
  length_le : machine.timeline.toList.length ≤ 4096
  tracing : machine.timeline.toList ≠ [] → machine.settings.trace = true
  chain : machine.timeline.toList.IsChain Frame.Precedes
  last : ∀ frame ∈ machine.timeline.toList.getLast?, frame.Leaves machine

namespace IntactTrace

theorem of_empty {machine : Machine} (hlimit : machine.settings.traceLimit = 4096)
    (hempty : machine.timeline.toList = []) : machine.IntactTrace where
  limit := hlimit
  length_le := by simp [hempty]
  tracing := fun hsome ↦ absurd hempty hsome
  chain := by simp [hempty]
  last := by simp [hempty]

variable {machine : Machine} (hintact : machine.IntactTrace)
include hintact

/-! ### What keeps a trace intact -/

theorem withMemory (memory : Memory) : { machine with memory }.IntactTrace :=
  { hintact with
    last := fun frame hframe ↦ { hintact.last frame hframe with } }

theorem withIndirect (rule : IndirectRule) :
    { machine with settings := { machine.settings with indirect := rule } }.IntactTrace :=
  { hintact with
    last := fun frame hframe ↦ { hintact.last frame hframe with } }

theorem withTrace :
    { machine with settings := { machine.settings with trace := true } }.IntactTrace :=
  { hintact with
    tracing := fun _ ↦ rfl
    last := fun frame hframe ↦ { hintact.last frame hframe with } }

/-- Loading a program changes the memory alone. -/
theorem loadProgram {bytes : List UInt8} {origin : UInt16} {loaded : Machine}
    (hload : machine.loadProgram bytes origin = .ok loaded) : loaded.IntactTrace := by
  unfold Machine.loadProgram at hload
  cases hmemory : machine.memory.load origin bytes with
  | error error =>
    rw [hmemory] at hload
    cases hload
  | ok memory =>
    rw [hmemory] at hload
    cases hload
    exact hintact.withMemory _

theorem reset : machine.reset.IntactTrace := of_empty hintact.limit rfl

/-- A step adds its frame behind the last one. -/
theorem step : machine.step.2.IntactTrace := by
  have hlimit : machine.step.2.settings.traceLimit = 4096 := by
    rw [settings_step, hintact.limit]
  by_cases hrunning : machine.state = .running
  · cases htrace : machine.settings.trace with
    | false =>
      refine of_empty hlimit ?_
      rw [timeline_step hrunning, htrace, if_neg Bool.false_ne_true]
      refine Decidable.byContradiction fun hsome ↦ ?_
      rw [hintact.tracing hsome] at htrace
      cases htrace
    | true =>
      have hframes : machine.step.2.timeline.toList =
          machine.timeline.toList.drop (machine.timeline.toList.length + 1 - 4096) ++
            [machine.frame] := by
        rw [← hintact.limit]
        exact toList_timeline_step_of_pos hrunning htrace (by rw [hintact.limit]; decide)
      constructor
      case limit => exact hlimit
      case length_le =>
        rw [hframes, List.length_append, List.length_drop, List.length_singleton]
        omega
      case tracing =>
        intro _
        rw [settings_step, htrace]
      case chain =>
        rw [hframes, List.isChain_append]
        refine ⟨hintact.chain.drop _, List.isChain_singleton _, fun frame hframe next hnext ↦ ?_⟩
        obtain rfl : machine.frame = next := Option.some.inj hnext
        rw [List.getLast?_drop] at hframe
        split at hframe
        · cases hframe
        · exact (hintact.last frame hframe).precedes hrunning
      case last =>
        intro frame hframe
        rw [hframes, List.getLast?_concat, Option.mem_some] at hframe
        exact hframe ▸ Frame.leaves_step hrunning
  · rw [step_of_stopped machine hrunning]
    exact hintact

theorem after (count : Nat) : (machine.after count).IntactTrace := by
  induction count with
  | zero => exact hintact
  | succ count ih => exact ih.step

end IntactTrace

/-! ### Runs -/

theorem IntactTrace.runUntil {machine : Machine} (hintact : machine.IntactTrace)
    (breakpoints : Breakpoints) (limit : Nat) :
    (machine.runUntil breakpoints limit).2.IntactTrace := by
  obtain ⟨count, hcount⟩ := machine.exists_runUntil_eq_after breakpoints limit
  rw [hcount]
  exact hintact.after count

end Machine

end Mos6502
