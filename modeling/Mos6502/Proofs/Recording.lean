import Mos6502.Proofs.Calls
import Mos6502.Proofs.Traffic

/-!
What a timeline tells of a run. As long as no frame is dropped, a machine that traces records one
frame for each call of `step` that finds it running (`Machine.toList_timeline_after`), and the
traffic in the frames is all that happened to the memory (`Machine.replay_traffic`).

`Machine.timeline_records_run` puts this together for a timeline that begins empty.
-/

set_option autoImplicit false
set_option relaxedAutoImplicit false

namespace Mos6502

namespace Frame

/-- The bus traffic of an instruction, without the step number of its events. -/
def accesses (frame : Frame) : List Access := frame.events.map Event.access

@[simp] theorem accesses_of (step : UInt64) (pc : UInt16) (opcode : UInt8) (registers : Registers)
    (accesses : List Access) :
    (Frame.of step pc opcode registers accesses).accesses = accesses := by
  simp only [Frame.accesses, Frame.of, List.map_map]
  exact List.map_id accesses

/-- Whether a frame tells of the call of `step` with the given number, counted from zero. The step
number counts on from the first machine, the program counter and the opcode are those that the call
found, the registers those that it left. -/
structure Records (frame : Frame) (machine : Machine) (call : Nat) : Prop where
  step : frame.step = machine.steps + UInt64.ofNat (call + 1)
  events : ∀ event ∈ frame.events, event.step = machine.steps + UInt64.ofNat (call + 1)
  pc : frame.pc = (machine.after call).registers.pc
  opcode : frame.opcode = (machine.after call).memory.read (machine.after call).registers.pc
  a : frame.a = (machine.after (call + 1)).registers.a
  x : frame.x = (machine.after (call + 1)).registers.x
  y : frame.y = (machine.after (call + 1)).registers.y
  sp : frame.sp = (machine.after (call + 1)).registers.sp
  flags : frame.flags = (machine.after (call + 1)).registers.status.pack

end Frame

namespace Machine

/-- The frame that the next call of `step` leaves if the machine runs and traces. -/
def frame (machine : Machine) : Frame :=
  Frame.of (machine.steps + 1) machine.registers.pc (machine.memory.read machine.registers.pc)
    machine.step.2.registers (machine.cycle.accesses machine.memory)

@[simp] theorem accesses_frame (machine : Machine) :
    machine.frame.accesses = machine.cycle.accesses machine.memory := by
  rw [frame, Frame.accesses_of]

/-! ### One call -/

/-- A machine that traces records the frame of each call that finds it running. -/
theorem timeline_step {machine : Machine} (hrunning : machine.state = .running) :
    machine.step.2.timeline =
      if machine.settings.trace then
        machine.timeline.record machine.settings.traceLimit machine.frame
      else machine.timeline := by
  rw [frame, registers_step hrunning, step_of_running machine hrunning]
  rfl

/-- A machine that traces keeps the last frames, as many as the limit allows. -/
theorem toList_timeline_step_of_trace {machine : Machine} (hrunning : machine.state = .running)
    (htrace : machine.settings.trace = true) :
    machine.step.2.timeline.toList =
      (machine.timeline.toList ++ [machine.frame]).drop
        ((machine.timeline.toList ++ [machine.frame]).length - machine.settings.traceLimit) := by
  rw [timeline_step hrunning, if_pos htrace, Timeline.toList_record]

/-- A call that finds the machine running adds its frame, if there is room for it. -/
theorem toList_timeline_step {machine : Machine} (hrunning : machine.state = .running)
    (htrace : machine.settings.trace = true)
    (hroom : machine.timeline.toList.length < machine.settings.traceLimit) :
    machine.step.2.timeline.toList = machine.timeline.toList ++ [machine.frame] := by
  have hfits :
      (machine.timeline.toList ++ [machine.frame]).length ≤ machine.settings.traceLimit := by
    simpa [Nat.add_one_le_iff] using hroom
  rw [toList_timeline_step_of_trace hrunning htrace, Nat.sub_eq_zero_of_le hfits, List.drop_zero]

/-- The traffic of a call replays to the memory that the call leaves. -/
theorem replay_frame {machine : Machine} (hrunning : machine.state = .running) :
    machine.memory.replay machine.frame.accesses = some machine.step.2.memory := by
  rw [accesses_frame, BusProgram.replay_accesses, memory_step hrunning]

/-! ### Many calls -/

/-- The frames of the first calls that find the machine running. -/
def callFrames (machine : Machine) (count : Nat) : List Frame :=
  (List.range (machine.runningCalls count)).map fun call ↦ (machine.after call).frame

theorem callFrames_succ_of_running {machine : Machine} {count : Nat}
    (hrunning : (machine.after count).state = .running) :
    machine.callFrames (count + 1) = machine.callFrames count ++ [(machine.after count).frame] := by
  simp only [callFrames, runningCalls, if_pos hrunning, List.range_succ, List.map_append,
    runningCalls_of_running hrunning, List.map_cons, List.map_nil]

theorem callFrames_succ_of_stopped {machine : Machine} {count : Nat}
    (hstopped : (machine.after count).state ≠ .running) :
    machine.callFrames (count + 1) = machine.callFrames count := by
  simp only [callFrames, runningCalls, if_neg hstopped, Nat.add_zero]

@[simp] theorem length_callFrames (machine : Machine) (count : Nat) :
    (machine.callFrames count).length = machine.runningCalls count := by
  simp [callFrames]

/-- As long as the limit is not passed, a timeline that began empty holds the frames of all calls
that found the machine running, and nothing else. -/
theorem toList_timeline_after {machine : Machine} (htrace : machine.settings.trace = true)
    (hempty : machine.timeline.toList = []) {count : Nat}
    (hlimit : count ≤ machine.settings.traceLimit) :
    (machine.after count).timeline.toList = machine.callFrames count := by
  induction count with
  | zero => simpa [callFrames, runningCalls] using hempty
  | succ count ih =>
    have hframes := ih (by omega)
    by_cases hrunning : (machine.after count).state = .running
    · have hroom : (machine.after count).timeline.toList.length <
          (machine.after count).settings.traceLimit := by
        rw [hframes, length_callFrames, settings_after]
        exact Nat.lt_of_le_of_lt (machine.runningCalls_le count) hlimit
      rw [after_succ, toList_timeline_step hrunning (by simpa using htrace) hroom, hframes,
        callFrames_succ_of_running hrunning]
    · rw [after_succ, step_of_stopped _ hrunning, hframes, callFrames_succ_of_stopped hrunning]

/-- The traffic of the first calls, in order. -/
def traffic (machine : Machine) (count : Nat) : List Access :=
  (machine.callFrames count).flatMap Frame.accesses

theorem traffic_succ_of_running {machine : Machine} {count : Nat}
    (hrunning : (machine.after count).state = .running) :
    machine.traffic (count + 1) =
      machine.traffic count ++ (machine.after count).frame.accesses := by
  rw [traffic, callFrames_succ_of_running hrunning, List.flatMap_append, List.flatMap_singleton]
  rfl

theorem traffic_succ_of_stopped {machine : Machine} {count : Nat}
    (hstopped : (machine.after count).state ≠ .running) :
    machine.traffic (count + 1) = machine.traffic count := by
  rw [traffic, traffic, callFrames_succ_of_stopped hstopped]

/-- The traffic of the calls replays to the memory after them. -/
theorem replay_traffic (machine : Machine) (count : Nat) :
    machine.memory.replay (machine.traffic count) = some (machine.after count).memory := by
  induction count with
  | zero => simp [traffic, callFrames, runningCalls]
  | succ count ih =>
    by_cases hrunning : (machine.after count).state = .running
    · rw [traffic_succ_of_running hrunning, Memory.replay_append, ih, Option.bind_some,
        replay_frame hrunning, after_succ]
    · rw [traffic_succ_of_stopped hrunning, ih, after_succ, step_of_stopped _ hrunning]

/-- A byte at an address that no instruction writes stays through the calls. -/
theorem read_after_of_unwritten {machine : Machine} {count : Nat} {place : UInt16}
    (hunwritten : ∀ access ∈ machine.traffic count,
      access.direction = .write → access.address ≠ place) :
    (machine.after count).memory.read place = machine.memory.read place :=
  Memory.read_of_replay (machine.replay_traffic count) hunwritten

/-- The frame of a call that finds the machine running records that call. -/
theorem records_frame {machine : Machine} {call : Nat}
    (hrunning : (machine.after call).state = .running) :
    (machine.after call).frame.Records machine call := by
  have hstep : (machine.after call).steps + 1 = machine.steps + UInt64.ofNat (call + 1) := by
    rw [steps_after, runningCalls_of_running hrunning, UInt64.ofNat_add, UInt64.add_assoc]
    rfl
  refine ⟨hstep, fun event hevent ↦ ?_, rfl, rfl, rfl, rfl, rfl, rfl, rfl⟩
  obtain ⟨access, -, rfl⟩ := List.mem_map.mp hevent
  exact hstep

/-- Trace soundness: a timeline that begins empty, and has room for a number of calls of `step`,
holds one frame for each of them that finds the machine running, in order; and the traffic in the
frames, replayed over the memory at the beginning, finds every byte that was read in its place and
ends with the memory after the calls. -/
theorem timeline_records_run (machine : Machine) (htrace : machine.settings.trace = true)
    (hempty : machine.timeline.toList = []) (count : Nat)
    (hlimit : count ≤ machine.settings.traceLimit) :
    let frames := (machine.after count).timeline.toList
    frames.length ≤ count ∧
      (∀ call < count, (machine.after call).state = .running ↔ call < frames.length) ∧
      (∀ (call : Nat) (hcall : call < frames.length), frames[call].Records machine call) ∧
      machine.memory.replay (frames.flatMap Frame.accesses) =
        some (machine.after count).memory := by
  simp only [toList_timeline_after htrace hempty hlimit, length_callFrames]
  refine ⟨machine.runningCalls_le count, fun call hcall ↦ machine.running_after_iff hcall,
    fun call hcall ↦ ?_, machine.replay_traffic count⟩
  have hrunning : (machine.after call).state = .running :=
    (machine.running_after_iff (Nat.lt_of_lt_of_le hcall (machine.runningCalls_le count))).mpr hcall
  simpa [callFrames] using records_frame hrunning

/-- A program that overwrites the opcode it comes to with one that stands for no instruction. Of
four calls the first three find the machine running: a load, a store and a fault. -/
theorem timeline_records_run_of_overwritten_opcode :
    let machine : Machine :=
      { memory := Memory.blank.writeBytes 0 [0xA9, 0x02, 0x85, 0x04]
        settings := { trace := true } }
    let frames := (machine.after 4).timeline.toList
    machine.settings.trace = true ∧ machine.timeline.toList = [] ∧ 4 ≤ machine.settings.traceLimit ∧
      frames.length = 3 ∧ (machine.after 3).state = .faulted ∧
      (∀ call < 4, (machine.after call).state = .running ↔ call < frames.length) ∧
      (∀ (call : Nat) (hcall : call < frames.length), frames[call].Records machine call) ∧
      machine.memory.replay (frames.flatMap Frame.accesses) = some (machine.after 4).memory :=
  ⟨rfl, rfl, by decide, by decide +kernel, by decide +kernel,
    (timeline_records_run _ rfl rfl 4 (by decide)).2⟩

end Machine

end Mos6502
