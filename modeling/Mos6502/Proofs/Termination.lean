import Mos6502.Proofs.Agreement
import Mos6502.Proofs.Fetching
import Mos6502.Proofs.Footprint

/-!
Runs that cannot pass a window. Three addresses in a row stop every run that comes to them if each
holds a break or an opcode that stands for no instruction. No instruction is longer than three
bytes, so the program counter cannot jump over the window: outside of it every completed
instruction brings the program counter nearer (`Machine.mem_window_or_distance_after_le`), and there
are 65533 addresses outside.

`Machine.terminates_at_window` says what this means for runs without a limit, and for the limit of
the monitor. Outside of the window the code may change itself.
-/

set_option autoImplicit false
set_option relaxedAutoImplicit false

namespace Mos6502

/-! ### Distances -/

/-- How far an address is behind another one, wrapping around at the top. -/
def distance (address target : UInt16) : Nat := (target - address).toNat

/-- Three addresses in a row, wrapping around at the top. -/
def window (start : UInt16) : List UInt16 := [start, start + 1, start + 2]

theorem mem_window_iff {start place : UInt16} :
    place ∈ window start ↔ distance place start = 0 ∨ 65534 ≤ distance place start := by
  have hstart := start.toNat_lt
  have hplace := place.toNat_lt
  simp only [window, distance, List.mem_cons, List.not_mem_nil, or_false, ← UInt16.toNat_inj,
    UInt16.toNat_add, UInt16.toNat_sub, UInt16.reduceToNat]
  omega

theorem distance_add_ofNat {address target : UInt16} {count : Nat}
    (hcount : count ≤ distance address target) :
    distance (address + UInt16.ofNat count) target + count = distance address target := by
  have haddress := address.toNat_lt
  have htarget := target.toNat_lt
  simp only [distance, UInt16.toNat_add, UInt16.toNat_sub, UInt16.toNat_ofNat'] at hcount ⊢
  omega

theorem mem_window_of_distance_lt {address start : UInt16} {count : Nat}
    (hpositive : distance address start ≠ 0) (hcount : distance address start < count)
    (hshort : count ≤ 3) : address + UInt16.ofNat count ∈ window start := by
  rw [mem_window_iff]
  have haddress := address.toNat_lt
  have hstart := start.toNat_lt
  simp only [distance, UInt16.toNat_add, UInt16.toNat_sub, UInt16.toNat_ofNat'] at *
  omega

namespace Machine

/-! ### Coming nearer -/

section Window

variable {machine : Machine} {start : UInt16}
  (hstops : ∀ place ∈ window start,
    decode (machine.memory.read place) = some .brk ∨ decode (machine.memory.read place) = none)
  (hunwritten : ∀ count, ∀ access ∈ machine.traffic count,
    access.direction = .write → access.address ∉ window start)
include hstops hunwritten

/-- An instruction that completes is outside of the window. -/
theorem notMem_window_of_running {count : Nat}
    (hrunning : (machine.after (count + 1)).state = .running) :
    (machine.after count).registers.pc ∉ window start := by
  intro hinside
  have hbefore := running_of_le (Nat.le_succ count) hrunning
  rw [after_succ, state_step_eq hbefore, state_eq_running_iff] at hrunning
  have hbyte : (machine.after count).opcode =
      machine.memory.read (machine.after count).registers.pc :=
    read_after_of_unwritten fun access haccess hwrite heq ↦
      hunwritten count access haccess hwrite (heq ▸ hinside)
  have hdecode := hstops _ hinside
  rw [← hbyte] at hdecode
  rcases hdecode with hbrk | hnone
  · rw [(outcomeAhead_eq_halted_iff _).mpr hbrk] at hrunning
    cases hrunning
  · obtain ⟨fault, hfault⟩ := (outcomeAhead_eq_unsupported_iff _).mpr hnone
    rw [hfault] at hrunning
    cases hrunning

/-- Each completed instruction brings the program counter nearer to the window, by one address at
least, or into it. -/
theorem mem_window_or_distance_after_le {count : Nat}
    (hrunning : (machine.after count).state = .running) :
    (machine.after count).registers.pc ∈ window start ∨
      distance (machine.after count).registers.pc start + count ≤
        distance machine.registers.pc start := by
  induction count with
  | zero => exact .inr (Nat.le_refl _)
  | succ count ih =>
    have hbefore := running_of_le (Nat.le_succ count) hrunning
    have houtside := notMem_window_of_running hstops hunwritten hrunning
    have hnear := (ih hbefore).resolve_left houtside
    have hpositive := instructionLength_pos (machine.after count).opcode
    rw [mem_window_iff, not_or] at houtside
    rw [after_succ, pc_step hbefore]
    by_cases hreach : instructionLength (machine.after count).opcode ≤
        distance (machine.after count).registers.pc start
    · have hmoved := distance_add_ofNat hreach
      exact .inr (by omega)
    · exact .inl (mem_window_of_distance_lt houtside.1 (Nat.lt_of_not_le hreach)
        (instructionLength_le_three _))

/-- There are no more completed instructions than addresses outside of the window. -/
theorem le_of_running_after {count : Nat} (hrunning : (machine.after count).state = .running) :
    count ≤ 65533 := by
  cases count with
  | zero => exact Nat.zero_le _
  | succ count =>
    have hbefore := running_of_le (Nat.le_succ count) hrunning
    have houtside := notMem_window_of_running hstops hunwritten hrunning
    have hfirst : machine.registers.pc ∉ window start :=
      notMem_window_of_running hstops hunwritten
        (running_of_le (Nat.succ_le_succ (Nat.zero_le count)) hrunning)
    have hnear :=
      (mem_window_or_distance_after_le hstops hunwritten hbefore).resolve_left houtside
    rw [mem_window_iff, not_or] at houtside hfirst
    omega

/-- A run comes to its end behind at most 65533 completed instructions. -/
theorem exists_stopsAfter_of_window (hrunning : machine.state = .running) :
    ∃ count ≤ 65533, ∃ outcome final, machine.StopsAfter count outcome final := by
  rcases completes_or_stopsAfter hrunning 65534 with hcompletes | ⟨count, hcount, hstopsAfter⟩
  · have hle := le_of_running_after hstops hunwritten (hcompletes.running hrunning)
    exact absurd hle (by decide)
  · exact ⟨count, Nat.le_of_lt_succ hcount, hstopsAfter⟩

end Window

/-- Bounded termination: let three addresses in a row each hold a break or an opcode that stands for
no instruction, and no instruction of the run of a machine write to them. Then the run halts or
fails once it has completed 65533 instructions at most, and the limit of the monitor is never
reached. -/
theorem terminates_at_window (machine : Machine) (hrunning : machine.state = .running)
    (start : UInt16)
    (hstops : ∀ place ∈ [start, start + 1, start + 2],
      decode (machine.memory.read place) = some .brk ∨ decode (machine.memory.read place) = none)
    (hunwritten : ∀ count, ∀ access ∈ machine.traffic count,
      access.direction = .write → access.address ∉ [start, start + 1, start + 2]) :
    (∃ count ≤ 65533,
      (∃ final, machine.Returns count final ∧ final.state = .halted) ∨
        ∃ fault final, machine.Fails count fault final ∧ final.state = .faulted) ∧
      (machine.runUntil Breakpoints.empty Session.watchdogLimit).1.reason ≠ .limit := by
  obtain ⟨count, hcount, outcome, final, hend⟩ :=
    exists_stopsAfter_of_window hstops hunwritten hrunning
  have hlimit : count < Session.watchdogLimit := Nat.lt_of_le_of_lt hcount (by decide)
  rw [runUntil_of_stopsAfter hend hlimit]
  cases outcome with
  | completed => exact absurd rfl hend.incomplete
  | halted =>
    exact ⟨⟨count, hcount, .inl ⟨final, (returns_iff hrunning).mpr hend, hend.state_eq⟩⟩,
      StopReason.noConfusion⟩
  | unsupported fault =>
    exact ⟨⟨count, hcount, .inr ⟨fault, final, (fails_iff hrunning).mpr hend, hend.state_eq⟩⟩,
      StopReason.noConfusion⟩

/-- A program that puts an instruction in the place of a break and then jumps over the first address
of a window that wraps around the end of memory. -/
theorem terminates_at_window_of_wrapped_window :
    let machine : Machine :=
      { registers := { pc := 0xFFF8 }
        memory := Memory.blank.writeBytes 0xFFF8 [0xA9, 0xEA, 0x8D, 0xFD, 0xFF, 0x00, 0xA9, 0x02] }
    machine.state = .running ∧
      (∀ place ∈ [0xFFFF, 0xFFFF + 1, 0xFFFF + 2],
        decode (machine.memory.read place) = some .brk ∨
          decode (machine.memory.read place) = none) ∧
      (∀ count, ∀ access ∈ machine.traffic count,
        access.direction = .write → access.address ∉ [0xFFFF, 0xFFFF + 1, 0xFFFF + 2]) ∧
      ((∃ count ≤ 65533,
        (∃ final, machine.Returns count final ∧ final.state = .halted) ∨
          ∃ fault final, machine.Fails count fault final ∧ final.state = .faulted) ∧
        (machine.runUntil Breakpoints.empty Session.watchdogLimit).1.reason ≠ .limit) ∧
      (machine.after 5).registers.pc = 0x0001 ∧ (machine.after 5).state = .halted := by
  intro machine
  have hstops : ∀ place ∈ [0xFFFF, 0xFFFF + 1, 0xFFFF + 2],
      decode (machine.memory.read place) = some .brk ∨
        decode (machine.memory.read place) = none := by
    rw [List.forall_mem_cons, List.forall_mem_cons, List.forall_mem_singleton]
    decide +kernel
  have hstopped : (machine.after 5).state ≠ .running := by decide +kernel
  have htraffic : ∀ access ∈ machine.traffic 5,
      access.direction = .write → access.address ∉ [0xFFFF, 0xFFFF + 1, 0xFFFF + 2] := by
    decide +kernel
  have hunwritten : ∀ count, ∀ access ∈ machine.traffic count,
      access.direction = .write → access.address ∉ [0xFFFF, 0xFFFF + 1, 0xFFFF + 2] :=
    fun count access haccess ↦ htraffic access (traffic_subset_of_stopped hstopped count haccess)
  exact ⟨rfl, hstops, hunwritten, terminates_at_window machine rfl 0xFFFF hstops hunwritten,
    by decide +kernel, by decide +kernel⟩

end Machine

end Mos6502
