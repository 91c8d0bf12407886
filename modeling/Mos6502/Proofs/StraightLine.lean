import Mos6502.Proofs.Ending
import Mos6502.Proofs.Fetching
import Mos6502.Proofs.Footprint
import Mos6502.Proofs.Placement

/-!
Straight-line programs. No instruction jumps, so a program that does not overwrite itself is
executed from its first byte to its last. An `Encoding` is the bytes of one instruction other than
the break, and `straightLine` puts some of them in a row with a break behind.

As long as the bytes stay where they are, a machine at the first of them fetches the opcodes in
order and none of the operand bytes (`Machine.Executes`). `Machine.run_straightLine` says what this
means for a program that is loaded and started, whatever the machine did before.
-/

set_option autoImplicit false
set_option relaxedAutoImplicit false

namespace Mos6502

/-! ### Programs -/

/-- The bytes of an instruction other than the break: an opcode that stands for it, and as many
operand bytes as go with it. -/
structure Encoding where
  opcode : UInt8
  operands : List UInt8
  instruction : Instruction
  decode_eq : decode opcode = some instruction
  ne_brk : instruction ≠ .brk
  length_operands : operands.length = instruction.operandWidth

namespace Encoding

/-- The opcode with the operand bytes behind it. -/
def bytes (encoding : Encoding) : List UInt8 := encoding.opcode :: encoding.operands

theorem length_bytes (encoding : Encoding) :
    encoding.bytes.length = instructionLength encoding.opcode := by
  rw [instructionLength_of_decode encoding.decode_eq, bytes, List.length_cons,
    encoding.length_operands, Nat.add_comm, Instruction.length]

end Encoding

/-- The bytes of instructions in a row. -/
def image (encodings : List Encoding) : List UInt8 := encodings.flatMap Encoding.bytes

/-- Instructions in a row, with a break behind them. -/
def straightLine (encodings : List Encoding) : List UInt8 := image encodings ++ [0x00]

theorem straightLine_cons (encoding : Encoding) (rest : List Encoding) :
    straightLine (encoding :: rest) = encoding.bytes ++ straightLine rest := by
  simp [straightLine, image]

@[simp] theorem length_straightLine (encodings : List Encoding) :
    (straightLine encodings).length = (image encodings).length + 1 := by
  simp [straightLine]

/-- The address and the opcode of each of the instructions in a row. -/
def places (origin : UInt16) : List Encoding → List (UInt16 × UInt8)
  | [] => []
  | encoding :: rest =>
      (origin, encoding.opcode) :: places (origin + UInt16.ofNat encoding.bytes.length) rest

/-- An instruction has at least one byte. -/
theorem length_le_length_image (encodings : List Encoding) :
    encodings.length ≤ (image encodings).length := by
  induction encodings with
  | nil => exact Nat.zero_le _
  | cons encoding rest ih =>
    have himage : image (encoding :: rest) = encoding.bytes ++ image rest := rfl
    rw [himage, List.length_append, encoding.length_bytes, List.length_cons]
    have hpositive := instructionLength_pos encoding.opcode
    omega

/-- The address and the opcode that a frame tells of. -/
def Frame.fetch (frame : Frame) : UInt16 × UInt8 := (frame.pc, frame.opcode)

namespace Machine

/-- The address and the opcode that the next step fetches. -/
def fetch (machine : Machine) : UInt16 × UInt8 := (machine.registers.pc, machine.opcode)

@[simp] theorem fetch_frame (machine : Machine) : machine.frame.fetch = machine.fetch := rfl

/-! ### One instruction -/

/-- A step at an encoding completes, and moves the program counter behind it. -/
theorem step_of_holds {machine : Machine} (hrunning : machine.state = .running)
    {encoding : Encoding} {rest : List UInt8}
    (hholds : machine.memory.Holds machine.registers.pc (encoding.bytes ++ rest)) :
    machine.step.1 = some .completed ∧ machine.fetch = (machine.registers.pc, encoding.opcode) ∧
      machine.step.2.registers.pc =
        machine.registers.pc + UInt16.ofNat encoding.bytes.length := by
  have hopcode : machine.opcode = encoding.opcode := (Memory.holds_cons_iff.mp hholds).1
  have houtcome : machine.outcomeAhead = .completed := by
    rw [outcomeAhead, hopcode, encoding.decode_eq]
    exact Instruction.outcome_of_ne_brk encoding.ne_brk
  refine ⟨by rw [outcome_step_eq hrunning, houtcome], by rw [fetch, hopcode], ?_⟩
  rw [pc_step hrunning, hopcode, encoding.length_bytes]

/-! ### Instructions in a row -/

/-- Whether a machine executes instructions from the program counter on, one after the other, and
comes to the byte behind them. -/
structure Executes (machine : Machine) (encodings : List Encoding) : Prop where
  completes : machine.Completes encodings.length (machine.after encodings.length)
  fetches : (List.range encodings.length).map (fun call ↦ (machine.after call).fetch) =
    places machine.registers.pc encodings
  pc : (machine.after encodings.length).registers.pc =
    machine.registers.pc + UInt16.ofNat (image encodings).length

namespace Executes

theorem nil (machine : Machine) : machine.Executes [] where
  completes := .refl machine
  fetches := rfl
  pc := (UInt16.add_zero _).symm

theorem cons {machine : Machine} {encoding : Encoding} {rest : List Encoding}
    (houtcome : machine.step.1 = some .completed)
    (hfetch : machine.fetch = (machine.registers.pc, encoding.opcode))
    (hpc : machine.step.2.registers.pc =
      machine.registers.pc + UInt16.ofNat encoding.bytes.length)
    (hrest : machine.step.2.Executes rest) : machine.Executes (encoding :: rest) where
  completes := by
    rw [List.length_cons, after_succ_eq_after_step]
    exact .head (Prod.ext houtcome rfl) hrest.completes
  fetches := by
    have hlater := hrest.fetches
    rw [hpc] at hlater
    rw [List.length_cons, List.range_succ_eq_map, List.map_cons, List.map_map, after_zero, hfetch,
      places, ← hlater]
    refine congrArg _ (List.map_congr_left fun call _ ↦ ?_)
    exact congrArg fetch (after_succ_eq_after_step machine call)
  pc := by
    have himage : image (encoding :: rest) = encoding.bytes ++ image rest := rfl
    rw [List.length_cons, after_succ_eq_after_step, hrest.pc, hpc, himage, List.length_append,
      UInt16.ofNat_add, UInt16.add_assoc]

end Executes

/-- A running machine executes a program in front of it, as long as the bytes stay in place. -/
theorem executes_of_holds {machine : Machine} (hrunning : machine.state = .running)
    {encodings : List Encoding}
    (hholds : ∀ call ≤ encodings.length,
      (machine.after call).memory.Holds machine.registers.pc (straightLine encodings)) :
    machine.Executes encodings := by
  induction encodings generalizing machine with
  | nil => exact .nil machine
  | cons encoding rest ih =>
    simp only [straightLine_cons] at hholds
    obtain ⟨houtcome, hfetch, hpc⟩ := step_of_holds hrunning (hholds 0 (Nat.zero_le _))
    have hstep : machine.step = (some .completed, machine.step.2) := Prod.ext houtcome rfl
    refine .cons houtcome hfetch hpc (ih (state_of_step hstep) fun call hcall ↦ ?_)
    have hlater := hholds (call + 1) (Nat.succ_le_succ hcall)
    rw [after_succ_eq_after_step, Memory.holds_append_iff, ← hpc] at hlater
    exact hlater.2

/-! ### Runs -/

/-- Whether a machine at the origin of a straight-line program runs to the break at its end. -/
structure RunsThrough (start : Machine) (origin : UInt16) (encodings : List Encoding)
    (final : Machine) : Prop where
  result : ∃ executed : UInt64, executed.toNat = encodings.length ∧
    ∀ budget, encodings.length < budget → start.run budget = some (.ok executed, final)
  state : final.state = .halted
  pc : final.registers.pc.toNat = origin.toNat + (straightLine encodings).length
  steps : final.steps.toNat = encodings.length + 1
  /-- One frame for each instruction, and one for the break. -/
  frames : start.settings.trace = true → encodings.length + 1 ≤ start.settings.traceLimit →
    final.timeline.toList.map Frame.fetch =
      places origin encodings ++
        [(origin + UInt16.ofNat ((straightLine encodings).length - 1), 0x00)]

section Started

variable {start : Machine} {encodings : List Encoding} (hrunning : start.state = .running)
  (hbelow : start.registers.pc.toNat + (straightLine encodings).length ≤ 65535)
  (hholds : ∀ call ≤ encodings.length,
    (start.after call).memory.Holds start.registers.pc (straightLine encodings))
include hrunning hholds

/-- Behind the instructions the machine fetches the break. -/
theorem fetch_after_of_holds :
    (start.after encodings.length).fetch =
      (start.registers.pc + UInt16.ofNat (image encodings).length, 0x00) := by
  have hlast := hholds _ (Nat.le_refl _)
  rw [straightLine, Memory.holds_append_iff] at hlast
  have hpc := (executes_of_holds hrunning hholds).pc
  rw [fetch, opcode, hpc]
  exact congrArg _ (Memory.holds_cons_iff.mp hlast.2).1

theorem stopsAfter_of_holds :
    start.StopsAfter encodings.length .halted (start.after (encodings.length + 1)) where
  completes := (executes_of_holds hrunning hholds).completes
  step := by
    have hexecutes := executes_of_holds hrunning hholds
    have hbreak : (start.after encodings.length).opcode = 0x00 :=
      congrArg Prod.snd (fetch_after_of_holds hrunning hholds)
    have houtcome := outcome_step_eq (hexecutes.completes.running hrunning)
    rw [(outcomeAhead_eq_halted_iff _).mpr (by rw [hbreak]; rfl)] at houtcome
    exact Prod.ext houtcome rfl
  incomplete := Outcome.noConfusion

include hbelow

/-- A machine that has been reset runs through the program in front of it. -/
theorem runsThrough_of_holds (hsteps : start.steps = 0) (hempty : start.timeline.toList = []) :
    start.RunsThrough start.registers.pc encodings (start.after (encodings.length + 1)) := by
  have hexecutes := executes_of_holds hrunning hholds
  have hstops := stopsAfter_of_holds hrunning hholds
  have hbreak := fetch_after_of_holds hrunning hholds
  have hlast := hexecutes.completes.running hrunning
  have hcalls : start.runningCalls (encodings.length + 1) = encodings.length + 1 := by
    rw [runningCalls, if_pos hlast, runningCalls_of_running hlast]
  have hcount := length_le_length_image encodings
  rw [length_straightLine] at hbelow
  have hfits : encodings.length < 2 ^ 64 := by omega
  refine {
    result := ⟨UInt64.ofNat encodings.length, UInt64.toNat_ofNat_of_lt' hfits,
      fun budget hbudget ↦ run_of_stopsAfter hstops hbudget⟩
    state := hstops.state_eq
    pc := ?_
    steps := ?_
    frames := fun htrace hlimit ↦ ?_ }
  · have hlength : instructionLength (start.after encodings.length).opcode = 1 := by
      rw [show (start.after encodings.length).opcode = 0x00 from congrArg Prod.snd hbreak]
      rfl
    rw [after_succ, pc_step hlast, hlength, hexecutes.pc, UInt16.add_assoc, ← UInt16.ofNat_add,
      length_straightLine]
    exact toNat_add_ofNat _ _ (by omega)
  · rw [steps_after, hcalls, hsteps, UInt64.zero_add]
    exact Nat.mod_eq_of_lt (by omega)
  · have hframes : (start.callFrames (encodings.length + 1)).map Frame.fetch =
        (List.range (encodings.length + 1)).map fun call ↦ (start.after call).fetch := by
      simp only [callFrames, hcalls, List.map_map, Function.comp_def, fetch_frame]
    rw [toList_timeline_after htrace hempty hlimit, hframes, List.range_succ, List.map_append,
      hexecutes.fetches, List.map_singleton, hbreak, length_straightLine, Nat.add_sub_cancel]

end Started

/-- A straight-line program that ends in front of the reset vector is loaded; and once the machine
is reset it runs from the first instruction to the break, if no instruction writes into the
program. The run returns the number of instructions, and leaves the program counter behind the
break. If there is a trace with room for it, the frames are those of the instructions in order, and
of the break. -/
theorem run_straightLine (machine : Machine) (encodings : List Encoding) (origin : UInt16)
    (hbelow : origin.toNat + (straightLine encodings).length ≤ 0xFFFC) :
    ∃ loaded, machine.loadProgram (straightLine encodings) origin = .ok loaded ∧
      ((∀ access ∈ loaded.reset.traffic encodings.length, access.direction = .write →
          access.address.toNat < origin.toNat ∨
            origin.toNat + (straightLine encodings).length ≤ access.address.toNat) →
        ∃ final, loaded.reset.RunsThrough origin encodings final) := by
  refine ⟨_, machine.loadProgram_eq (by omega), fun hunwritten ↦ ?_⟩
  generalize hloaded : machine.withProgram (straightLine encodings) origin = loaded at hunwritten ⊢
  have hpc : loaded.reset.registers.pc = origin := by
    rw [← hloaded]
    exact machine.pc_reset_withProgram _ origin
  have hholds : ∀ call ≤ encodings.length,
      (loaded.reset.after call).memory.Holds origin (straightLine encodings) := by
    intro call hcall
    have hstart : loaded.reset.memory.Holds origin (straightLine encodings) := by
      rw [← hloaded]
      exact machine.holds_withProgram hbelow
    refine hstart.congr (by omega) fun place hfrom hto ↦ read_after_of_unwritten ?_
    rintro access haccess hwrite rfl
    have houtside := hunwritten access (traffic_subset hcall haccess) hwrite
    omega
  rw [← hpc] at hholds hbelow ⊢
  exact ⟨_, runsThrough_of_holds rfl (by omega) hholds rfl rfl⟩

/-- A program that ends in front of the reset vector, on a machine that has halted. It stores a byte
and loads it by the legacy rule, which takes the break for the high byte of an address. All operand
bytes but one would be opcodes too. -/
theorem run_straightLine_of_legacy_operand :
    let machine : Machine :=
      { registers := { y := 0x04, pc := 0x4000, status := { breakMark := true } }
        state := .halted
        steps := 9
        settings := { indirect := .legacy, trace := true } }
    let encodings : List Encoding :=
      [⟨0xA9, [0x38], .operate .lda .immediate, rfl, by decide, rfl⟩,
        ⟨0x8D, [0xEA, 0x00], .store .sta .absolute, rfl, by decide, rfl⟩,
        ⟨0xB1, [0xE6], .operate .lda .indirectY, rfl, by decide, rfl⟩]
    let loaded := machine.withProgram (straightLine encodings) 0xFFF4
    (0xFFF4 : UInt16).toNat + (straightLine encodings).length ≤ 0xFFFC ∧
      machine.loadProgram (straightLine encodings) 0xFFF4 = .ok loaded ∧
      (∀ access ∈ loaded.reset.traffic encodings.length, access.direction = .write →
        access.address.toNat < (0xFFF4 : UInt16).toNat ∨
          (0xFFF4 : UInt16).toNat + (straightLine encodings).length ≤ access.address.toNat) ∧
      ∃ final, loaded.reset.RunsThrough 0xFFF4 encodings final ∧
        final.timeline.toList.map Frame.fetch =
          [(0xFFF4, 0xA9), (0xFFF6, 0x8D), (0xFFF9, 0xB1), (0xFFFB, 0x00)] := by
  intro machine encodings loaded
  have hbelow : (0xFFF4 : UInt16).toNat + (straightLine encodings).length ≤ 0xFFFC := by decide
  obtain ⟨_, hload, hruns⟩ := run_straightLine machine encodings 0xFFF4 hbelow
  have hplaced : machine.loadProgram (straightLine encodings) 0xFFF4 = .ok loaded :=
    machine.loadProgram_eq (by decide)
  obtain rfl := Except.ok.inj (hplaced.symm.trans hload)
  have hunwritten : ∀ access ∈ loaded.reset.traffic encodings.length, access.direction = .write →
      access.address.toNat < (0xFFF4 : UInt16).toNat ∨
        (0xFFF4 : UInt16).toNat + (straightLine encodings).length ≤ access.address.toNat := by
    decide +kernel
  obtain ⟨final, hfinal⟩ := hruns hunwritten
  exact ⟨hbelow, hplaced, hunwritten, final, hfinal,
    (hfinal.frames rfl (by decide)).trans (by decide)⟩

end Machine

end Mos6502
