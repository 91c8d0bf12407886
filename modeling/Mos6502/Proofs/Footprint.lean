import Mos6502.Proofs.Recording

/-!
The frames of a run name every byte of memory that the run depends on. Let two machines agree in
all but memory (`Machine.AgreeBeyondMemory`), and their memories wherever the frames of the first
one tell of a read. Then they make the same run: each call of `step` has the same outcome, and
leaves machines that agree in all but memory. Afterwards the memories differ only where they
differed before and no frame tells of a write.

`Machine.AgreeBeyondMemory.step` and `Machine.AgreeBeyondMemory.read_step` say this of one call,
`Machine.AgreeBeyondMemory.after` of many, and `Machine.run_determined_by_reads` of the frames in a
timeline.
-/

set_option autoImplicit false
set_option relaxedAutoImplicit false

namespace Mos6502

namespace Machine

/-- Whether two machines agree in all but their memories and what is pending in front of the next
opcode. -/
structure AgreeBeyondMemory (first second : Machine) : Prop where
  registers : second.registers = first.registers
  state : second.state = first.state
  steps : second.steps = first.steps
  settings : second.settings = first.settings
  timeline : second.timeline = first.timeline

namespace AgreeBeyondMemory

variable {first second : Machine} (hagree : first.AgreeBeyondMemory second)
include hagree

/-! ### One call -/

theorem cycle_eq : second.cycle = first.cycle := by
  rw [cycle, cycle, hagree.settings, hagree.registers]

/-- The cycle has the same traffic and the same result on memories that agree where it reads. -/
theorem observe_cycle_eq
    (hreads : first.memory.AgreeOnReads second.memory first.frame.accesses) :
    second.cycle.accesses second.memory = first.cycle.accesses first.memory ∧
      (second.cycle.run second.memory).1 = (first.cycle.run first.memory).1 := by
  rw [accesses_frame] at hreads
  rw [hagree.cycle_eq]
  exact first.cycle.observe_eq_of_agree hreads

section OneCall

variable (hrunning : first.state = .running)
  (hreads : first.memory.AgreeOnReads second.memory first.frame.accesses)
include hrunning hreads

theorem frame_eq : second.frame = first.frame := by
  have hother : second.state = .running := hagree.state.trans hrunning
  obtain ⟨haccesses, hresult⟩ := hagree.observe_cycle_eq hreads
  have hopcode : first.memory.read first.registers.pc = second.memory.read first.registers.pc := by
    rw [accesses_frame] at hreads
    exact hreads _ List.mem_cons_self rfl
  rw [frame, frame, registers_step hother, registers_step hrunning, hresult, haccesses,
    hagree.steps, hagree.registers, hopcode]

/-- A call has the same outcome on both machines, and leaves them in agreement. -/
theorem step : second.step.1 = first.step.1 ∧ first.step.2.AgreeBeyondMemory second.step.2 := by
  have hother : second.state = .running := hagree.state.trans hrunning
  obtain ⟨-, hresult⟩ := hagree.observe_cycle_eq hreads
  have hframe := hagree.frame_eq hrunning hreads
  refine ⟨?_, ?_⟩
  · rw [outcome_step hother, outcome_step hrunning, hresult]
  · exact {
      registers := by rw [registers_step hother, registers_step hrunning, hresult]
      state := by rw [state_step hother, state_step hrunning, hresult]
      steps := by rw [steps_step hother, steps_step hrunning, hagree.steps]
      settings := by rw [settings_step, settings_step, hagree.settings]
      timeline := by
        rw [timeline_step hother, timeline_step hrunning, hframe, hagree.settings,
          hagree.timeline] }

/-- Where a call leaves different bytes on the two machines, they differed before and the frame
tells of no write. -/
theorem read_step {place : UInt16}
    (hdiffer : first.step.2.memory.read place ≠ second.step.2.memory.read place) :
    first.memory.read place ≠ second.memory.read place ∧
      ∀ access ∈ first.frame.accesses, access.direction = .write → access.address ≠ place := by
  have hother : second.state = .running := hagree.state.trans hrunning
  rw [memory_step hrunning, memory_step hother, hagree.cycle_eq] at hdiffer
  rw [accesses_frame] at hreads ⊢
  exact first.cycle.read_run_of_agree hreads hdiffer

end OneCall

end AgreeBeyondMemory

/-! ### Many calls -/

theorem traffic_subset_succ (machine : Machine) (count : Nat) :
    machine.traffic count ⊆ machine.traffic (count + 1) := by
  by_cases hrunning : (machine.after count).state = .running
  · rw [traffic_succ_of_running hrunning]
    exact List.subset_append_left _ _
  · rw [traffic_succ_of_stopped hrunning]
    exact List.Subset.refl _

theorem traffic_subset {machine : Machine} {early late : Nat} (hle : early ≤ late) :
    machine.traffic early ⊆ machine.traffic late := by
  induction hle with
  | refl => exact List.Subset.refl _
  | step _ ih => exact List.Subset.trans ih (machine.traffic_subset_succ _)

/-- Calls that find the machine stopped add no traffic. -/
theorem traffic_subset_of_stopped {machine : Machine} {last : Nat}
    (hstopped : (machine.after last).state ≠ .running) (count : Nat) :
    machine.traffic count ⊆ machine.traffic last := by
  rcases Nat.le_total count last with hle | hle
  · exact traffic_subset hle
  · induction hle with
    | refl => exact List.Subset.refl _
    | @step count hle ih =>
      have hstill : (machine.after count).state ≠ .running := fun hrunning ↦
        hstopped (running_of_le hle hrunning)
      rwa [traffic_succ_of_stopped hstill]

/-- Memories that differ only where they differed at the beginning agree where the next call
reads. -/
theorem agreeOnReads_frame {machine : Machine} {memory current : Memory} {call : Nat}
    (hrunning : (machine.after call).state = .running)
    (hreads : machine.memory.AgreeOnReads memory (machine.traffic (call + 1)))
    (hdifference : ∀ place, (machine.after call).memory.read place ≠ current.read place →
      machine.memory.read place ≠ memory.read place) :
    (machine.after call).memory.AgreeOnReads current (machine.after call).frame.accesses := by
  intro access haccess hread
  refine Decidable.byContradiction fun hdiffer ↦ hdifference _ hdiffer (hreads _ ?_ hread)
  rw [traffic_succ_of_running hrunning]
  exact List.mem_append_right _ haccess

namespace AgreeBeyondMemory

variable {first second : Machine} (hagree : first.AgreeBeyondMemory second)
include hagree

/-- Where the memories agree on all reads of the calls, the calls leave the machines in agreement,
and the memories differ only where they differed before and the calls wrote nothing. Both are
proved together, because the second one for the calls so far is what the first one needs for the
next call. -/
theorem after {count : Nat}
    (hreads : first.memory.AgreeOnReads second.memory (first.traffic count)) :
    (first.after count).AgreeBeyondMemory (second.after count) ∧
      ∀ place, (first.after count).memory.read place ≠ (second.after count).memory.read place →
        first.memory.read place ≠ second.memory.read place ∧
          ∀ access ∈ first.traffic count, access.direction = .write → access.address ≠ place := by
  induction count with
  | zero =>
    exact ⟨hagree, fun place hdiffer ↦ ⟨hdiffer, by simp [traffic, callFrames, runningCalls]⟩⟩
  | succ count ih =>
    obtain ⟨hsame, hdifference⟩ := ih (hreads.mono (first.traffic_subset_succ count))
    by_cases hrunning : (first.after count).state = .running
    · have hnow :=
        agreeOnReads_frame hrunning hreads fun place hdiffer ↦ (hdifference place hdiffer).1
      rw [traffic_succ_of_running hrunning]
      refine ⟨(hsame.step hrunning hnow).2, fun place hdiffer ↦ ?_⟩
      obtain ⟨hbefore, hlast⟩ := hsame.read_step hrunning hnow hdiffer
      obtain ⟨hfirst, hearlier⟩ := hdifference place hbefore
      refine ⟨hfirst, fun access haccess hwrite ↦ ?_⟩
      rcases List.mem_append.mp haccess with hmember | hmember
      · exact hearlier access hmember hwrite
      · exact hlast access hmember hwrite
    · have hother : (second.after count).state ≠ .running := by
        rw [hsame.state]
        exact hrunning
      rw [traffic_succ_of_stopped hrunning, after_succ, after_succ, step_of_stopped _ hrunning,
        step_of_stopped _ hother]
      exact ⟨hsame, hdifference⟩

/-- Where the memories agree on all reads of the calls up to one, that call has the same outcome. -/
theorem outcome_after {call : Nat}
    (hreads : first.memory.AgreeOnReads second.memory (first.traffic (call + 1))) :
    (second.after call).step.1 = (first.after call).step.1 := by
  obtain ⟨hsame, hdifference⟩ := hagree.after (hreads.mono (first.traffic_subset_succ call))
  by_cases hrunning : (first.after call).state = .running
  · have hnow :=
      agreeOnReads_frame hrunning hreads fun place hdiffer ↦ (hdifference place hdiffer).1
    exact (hsame.step hrunning hnow).1
  · have hother : (second.after call).state ≠ .running := by
      rw [hsame.state]
      exact hrunning
    rw [step_of_stopped _ hrunning, step_of_stopped _ hother]

end AgreeBeyondMemory

/-- Trace completeness: let two machines agree in all but memory, the first one trace with an empty
timeline and room for a number of calls of `step`, and the memories agree wherever its frames will
tell of a read. Then the calls have the same outcomes and leave machines that agree in all but
memory, and the memories differ afterwards only where they differed before and the frames tell of
no write. -/
theorem run_determined_by_reads (first second : Machine) (hagree : first.AgreeBeyondMemory second)
    (htrace : first.settings.trace = true) (hempty : first.timeline.toList = []) (count : Nat)
    (hlimit : count ≤ first.settings.traceLimit)
    (hreads : first.memory.AgreeOnReads second.memory
      ((first.after count).timeline.toList.flatMap Frame.accesses)) :
    (∀ call < count, (second.after call).step.1 = (first.after call).step.1) ∧
      (∀ call ≤ count, (first.after call).AgreeBeyondMemory (second.after call)) ∧
      ∀ place, (first.after count).memory.read place ≠ (second.after count).memory.read place →
        first.memory.read place ≠ second.memory.read place ∧
          ∀ access ∈ (first.after count).timeline.toList.flatMap Frame.accesses,
            access.direction = .write → access.address ≠ place := by
  rw [toList_timeline_after htrace hempty hlimit] at hreads ⊢
  change first.memory.AgreeOnReads second.memory (first.traffic count) at hreads
  refine ⟨fun call hcall ↦ ?_, fun call hcall ↦ ?_, ?_⟩
  · exact hagree.outcome_after (hreads.mono (traffic_subset hcall))
  · exact (hagree.after (hreads.mono (traffic_subset hcall))).1
  · exact (hagree.after hreads).2

/-- A copy of one byte, on two memories that differ at the copy and at a byte that no call
touches. -/
theorem run_determined_by_reads_of_copy :
    let first : Machine :=
      { memory := Memory.blank.writeBytes 0 [0xA5, 0x04, 0x85, 0x20, 0x00]
        settings := { trace := true } }
    let second : Machine :=
      { first with memory := (first.memory.write 0x20 0x55).write 0x30 0x77 }
    first.AgreeBeyondMemory second ∧ first.settings.trace = true ∧
      first.timeline.toList = [] ∧ 3 ≤ first.settings.traceLimit ∧
      first.memory.AgreeOnReads second.memory
        ((first.after 3).timeline.toList.flatMap Frame.accesses) ∧
      (∀ call ≤ 3, (first.after call).AgreeBeyondMemory (second.after call)) ∧
      (second.after 3).state = .halted := by
  intro first second
  have hagree : first.AgreeBeyondMemory second := ⟨rfl, rfl, rfl, rfl, rfl⟩
  have hreads : first.memory.AgreeOnReads second.memory
      ((first.after 3).timeline.toList.flatMap Frame.accesses) := by
    decide +kernel
  exact ⟨hagree, rfl, rfl, by decide, hreads,
    (run_determined_by_reads first second hagree rfl rfl 3 (by decide) hreads).2.1,
    by decide +kernel⟩

end Machine

end Mos6502
