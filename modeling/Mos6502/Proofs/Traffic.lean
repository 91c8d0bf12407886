import Mos6502.Bus

/-!
What the traffic of a bus program says about memory. Replaying a list of accesses over a memory
checks every byte that was read and stores every byte that was written.

`BusProgram.replay_accesses` is soundness: the traffic of a program replays over the memory that
the program started from, and leaves the memory that the program left.
`BusProgram.observe_eq_of_agree` is completeness: on another memory with the same bytes at the
addresses that were read, the program has the same traffic and the same result.
`BusProgram.read_run_of_agree` tells where the two memories may still differ afterwards: only where
they differed before, and where nothing was written.
-/

set_option autoImplicit false
set_option relaxedAutoImplicit false

namespace Mos6502

/-! ### Replay -/

/-- The memory after an access, which exists if a byte that was read is the one the memory holds. -/
def Access.replay (memory : Memory) (access : Access) : Option Memory :=
  match access.direction with
  | .read => if memory.read access.address = access.data then some memory else none
  | .write => some (memory.write access.address access.data)

/-- The memory after accesses in order, which exists if all reads find the bytes they tell of. -/
def Memory.replay (memory : Memory) (accesses : List Access) : Option Memory :=
  accesses.foldlM Access.replay memory

namespace Memory

@[simp] theorem replay_nil (memory : Memory) : memory.replay [] = some memory := rfl

theorem replay_cons_read (memory : Memory) (address : UInt16) (purpose : Purpose)
    (rest : List Access) :
    memory.replay (⟨.read, address, memory.read address, purpose⟩ :: rest) =
      memory.replay rest := by
  simp [replay, Access.replay]

theorem replay_cons_write (memory : Memory) (address : UInt16) (data : UInt8) (purpose : Purpose)
    (rest : List Access) :
    memory.replay (⟨.write, address, data, purpose⟩ :: rest) =
      (memory.write address data).replay rest := by
  simp [replay, Access.replay]

theorem replay_append (memory : Memory) (first second : List Access) :
    memory.replay (first ++ second) = (memory.replay first).bind (·.replay second) := by
  simp only [replay, List.foldlM_append]
  rfl

/-- A byte at an address that no access writes is still there after the replay. -/
theorem read_of_replay {memory final : Memory} {accesses : List Access} {place : UInt16}
    (hreplay : memory.replay accesses = some final)
    (hunwritten : ∀ access ∈ accesses, access.direction = .write → access.address ≠ place) :
    final.read place = memory.read place := by
  induction accesses generalizing memory with
  | nil =>
    cases hreplay
    rfl
  | cons access accesses ih =>
    rw [List.forall_mem_cons] at hunwritten
    obtain ⟨direction, address, data, purpose⟩ := access
    rw [replay, List.foldlM_cons] at hreplay
    cases direction with
    | read =>
      by_cases hbyte : memory.read address = data
      · simp only [Access.replay, if_pos hbyte] at hreplay
        exact ih hreplay hunwritten.2
      · simp [Access.replay, hbyte] at hreplay
    | write =>
      have hrest : final.read place = (memory.write address data).read place :=
        ih hreplay hunwritten.2
      rw [hrest, read_write, if_neg (hunwritten.1 rfl)]

/-! ### Agreement -/

/-- Whether two memories hold the same byte wherever a list of accesses reads. -/
def AgreeOnReads (first second : Memory) (accesses : List Access) : Prop :=
  ∀ access ∈ accesses, access.direction = .read →
    first.read access.address = second.read access.address

instance (first second : Memory) (accesses : List Access) :
    Decidable (first.AgreeOnReads second accesses) :=
  inferInstanceAs (Decidable (∀ access ∈ accesses, access.direction = .read →
    first.read access.address = second.read access.address))

theorem AgreeOnReads.mono {first second : Memory} {part whole : List Access}
    (hagree : first.AgreeOnReads second whole) (hsubset : part ⊆ whole) :
    first.AgreeOnReads second part :=
  fun access haccess ↦ hagree access (hsubset haccess)

/-- Agreement survives when both memories get the same byte at the same address. -/
theorem AgreeOnReads.write {first second : Memory} {accesses : List Access}
    (hagree : first.AgreeOnReads second accesses) (address : UInt16) (data : UInt8) :
    (first.write address data).AgreeOnReads (second.write address data) accesses := by
  intro access haccess hread
  rw [read_write, read_write]
  split
  · rfl
  · exact hagree access haccess hread

end Memory

namespace BusProgram

variable {α : Type}

@[simp] theorem run_read (address : UInt16) (purpose : Purpose) (next : UInt8 → BusProgram α)
    (memory : Memory) :
    (read address purpose next).run memory = (next (memory.read address)).run memory := rfl

@[simp] theorem run_write (address : UInt16) (data : UInt8) (purpose : Purpose)
    (next : BusProgram α) (memory : Memory) :
    (write address data purpose next).run memory = next.run (memory.write address data) := rfl

/-- The traffic of a program replays to the memory that the program leaves. -/
theorem replay_accesses (program : BusProgram α) (memory : Memory) :
    memory.replay (program.accesses memory) = some (program.run memory).2 := by
  induction program generalizing memory with
  | done result => rfl
  | read address purpose next ih =>
    rw [accesses_read, Memory.replay_cons_read, ih, run_read]
  | write address data purpose next ih =>
    rw [accesses_write, Memory.replay_cons_write, ih, run_write]

/-! ### Footprint -/

/-- A program has the same traffic and the same result on two memories that agree where it
reads. -/
theorem observe_eq_of_agree (program : BusProgram α) {first second : Memory}
    (hagree : first.AgreeOnReads second (program.accesses first)) :
    program.accesses second = program.accesses first ∧
      (program.run second).1 = (program.run first).1 := by
  induction program generalizing first second with
  | done result => exact ⟨rfl, rfl⟩
  | read address purpose next ih =>
    rw [accesses_read] at hagree
    have hbyte : first.read address = second.read address := hagree _ List.mem_cons_self rfl
    obtain ⟨haccesses, hresult⟩ := ih (first.read address) (hagree.mono (List.subset_cons_self _ _))
    rw [accesses_read, accesses_read, run_read, run_read, ← hbyte, haccesses]
    exact ⟨rfl, hresult⟩
  | write address data purpose next ih =>
    rw [accesses_write] at hagree
    obtain ⟨haccesses, hresult⟩ := ih ((hagree.mono (List.subset_cons_self _ _)).write address data)
    rw [accesses_write, accesses_write, run_write, run_write, haccesses]
    exact ⟨rfl, hresult⟩

/-- Where a program leaves different bytes on two memories that agree where it reads, they
differed before and the program wrote nothing. -/
theorem read_run_of_agree (program : BusProgram α) {first second : Memory}
    (hagree : first.AgreeOnReads second (program.accesses first)) {place : UInt16}
    (hdiffer : (program.run first).2.read place ≠ (program.run second).2.read place) :
    first.read place ≠ second.read place ∧
      ∀ access ∈ program.accesses first, access.direction = .write → access.address ≠ place := by
  induction program generalizing first second with
  | done result => exact ⟨hdiffer, by simp⟩
  | read address purpose next ih =>
    rw [accesses_read] at hagree ⊢
    have hbyte : first.read address = second.read address := hagree _ List.mem_cons_self rfl
    rw [run_read, run_read, ← hbyte] at hdiffer
    obtain ⟨hbefore, hwrites⟩ :=
      ih (first.read address) (hagree.mono (List.subset_cons_self _ _)) hdiffer
    refine ⟨hbefore, fun access haccess hwrite ↦ ?_⟩
    rcases List.mem_cons.mp haccess with rfl | hrest
    · cases hwrite
    · exact hwrites access hrest hwrite
  | write address data purpose next ih =>
    rw [accesses_write] at hagree ⊢
    obtain ⟨hbefore, hwrites⟩ :=
      ih ((hagree.mono (List.subset_cons_self _ _)).write address data) hdiffer
    rw [Memory.read_write, Memory.read_write] at hbefore
    by_cases hplace : address = place
    · simp [hplace] at hbefore
    · rw [if_neg hplace, if_neg hplace] at hbefore
      refine ⟨hbefore, fun access haccess hwrite ↦ ?_⟩
      rcases List.mem_cons.mp haccess with rfl | hrest
      · exact hplace
      · exact hwrites access hrest hwrite

end BusProgram

end Mos6502
