import Mathlib.Logic.Function.Iterate
import Mos6502.Interface
import Mos6502.Proofs.Complaint
import Mos6502.Proofs.Placement

/-!
Loading a program into a machine in any state, when the image and the reset vector may lie over one
another in any way. The vector is written last, so it points to the program even where the image
covers it, and all other bytes of the image are in their places (`Machine.GivenProgram`). Resets
in a row are one reset (`Machine.reset_iterate`), which starts the program. An image that would run
past the last address is reported in one line, and nothing is changed (`Machine.loads_program`).
-/

set_option autoImplicit false
set_option relaxedAutoImplicit false

namespace Mos6502

namespace Machine

/-! ### Resets -/

/-- The machine ready to run what is at an address, with nothing executed and nothing recorded. -/
def startedAt (machine : Machine) (address : UInt16) : Machine :=
  { machine with
    registers :=
      { machine.registers with
        pc := address
        sp := 0xFD
        status :=
          { machine.registers.status with interruptDisable := true, breakMark := false } }
    state := .running
    steps := 0
    timeline := Timeline.empty
    pending := [] }

theorem reset_eq (machine : Machine) :
    machine.reset = machine.startedAt (machine.memory.readWord Memory.resetVector) := rfl

/-- Resets in a row are one reset. -/
theorem reset_iterate (machine : Machine) (count : Nat) :
    reset^[count + 1] machine =
      machine.startedAt (machine.memory.readWord Memory.resetVector) := by
  induction count with
  | zero => exact machine.reset_eq
  | succ count ih =>
    rw [Function.iterate_succ_apply', ih]
    rfl

/-! ### Images that fit -/

/-- Whether a machine was given a program and is otherwise as it was. -/
structure GivenProgram (machine : Machine) (bytes : List UInt8) (origin : UInt16)
    (loaded : Machine) : Prop where
  vector_low : (loaded.memory.read 0xFFFC).toNat = origin.toNat % 256
  vector_high : (loaded.memory.read 0xFFFD).toNat = origin.toNat / 256
  inside : ∀ place : UInt16, place ≠ 0xFFFC → place ≠ 0xFFFD →
    ∀ index (hindex : index < bytes.length), place.toNat = origin.toNat + index →
      loaded.memory.read place = bytes[index]
  outside : ∀ place : UInt16, place ≠ 0xFFFC → place ≠ 0xFFFD →
    place.toNat < origin.toNat ∨ origin.toNat + bytes.length ≤ place.toNat →
      loaded.memory.read place = machine.memory.read place
  others : loaded = { machine with memory := loaded.memory }

section Fitting

variable (machine : Machine) {bytes : List UInt8} {origin : UInt16}

theorem givenProgram_withProgram (hfits : origin.toNat + bytes.length ≤ 65536) :
    machine.GivenProgram bytes origin (machine.withProgram bytes origin) := by
  have hread := machine.read_withProgram hfits
  constructor
  case vector_low =>
    rw [hread, ← toNat_lowByte]
    rfl
  case vector_high =>
    rw [hread, ← toNat_highByte]
    rfl
  case inside =>
    intro place hlow hhigh index hindex hplace
    rw [hread, if_neg hhigh, if_neg hlow, if_pos (by omega), hplace, Nat.add_sub_cancel_left,
      List.getElem?_eq_getElem hindex, Option.getD_some]
  case outside =>
    intro place hlow hhigh houtside
    rw [hread, if_neg hhigh, if_neg hlow]
    split
    · rw [List.getElem?_eq_none (by omega), Option.getD_none]
    · rfl
  case others => rfl

/-- An image that covers the vector loses two bytes to it. -/
example : (({} : Machine).withProgram [1, 2, 3, 4] 0xFFFB).memory.readBytes 0xFFFB 4 =
    [1, 0xFB, 0xFF, 4] := by
  decide +kernel

/-- The vector is where a reset looks for the program, whatever the image puts there. -/
theorem reset_iterate_withProgram (count : Nat) :
    reset^[count + 1] (machine.withProgram bytes origin) =
      (machine.withProgram bytes origin).startedAt origin := by
  have hvector := machine.pc_reset_withProgram bytes origin
  rw [reset_eq] at hvector
  rw [reset_iterate]
  exact congrArg _ hvector

end Fitting

/-! ### Images that do not fit -/

/-- Whether a text is one line that the bus reports. -/
def IsBusReport (text : Text) : Prop :=
  ∃ report, text = "[bus] ".toList ++ report ++ ['\n'] ∧ '\n' ∉ report

theorem isBusReport_message (error : Memory.LoadError) : IsBusReport error.message := by
  refine ⟨"program of ".toList ++ decimal error.size ++ " bytes does not fit at ".toList ++
    Hex.word error.origin, ?_, ?_⟩
  · unfold Memory.LoadError.message
    simp only [List.append_assoc]
    rfl
  · simp only [List.mem_append, not_or]
    exact ⟨⟨⟨by decide, newline_notMem_decimal error.size⟩, by decide⟩,
      newline_notMem_word error.origin⟩

/-- Whether a load was refused, given its response and the machine that it left. -/
structure RefusesImage (machine : Machine) (response : Response) (next : Machine) : Prop where
  result : response.result = .ok (.truth false)
  report : IsBusReport response.diagnostics
  unchanged : next = machine

theorem refusesImage_answerLoad (machine : Machine) (error : Memory.LoadError) :
    machine.RefusesImage (machine.answerLoad (.error error)).1
      (machine.answerLoad (.error error)).2 :=
  ⟨rfl, isBusReport_message error, rfl⟩

/-! ### Requests to load -/

/-- What a request to load a program comes to, given its response and the machine that it left. -/
structure LoadsProgram (machine : Machine) (bytes : List UInt8) (origin : UInt16)
    (response : Response) (loaded : Machine) : Prop where
  accepts : response.result = .ok (.truth (origin.toNat + bytes.length ≤ 65536))
  refused : 65536 < origin.toNat + bytes.length → machine.RefusesImage response loaded
  given : origin.toNat + bytes.length ≤ 65536 →
    response.diagnostics = [] ∧ machine.GivenProgram bytes origin loaded
  /-- Resets, however many, start the program. -/
  started : origin.toNat + bytes.length ≤ 65536 → ∀ count,
    reset^[count + 1] loaded = loaded.startedAt origin

theorem loadsProgram_answerLoad (machine : Machine) (bytes : List UInt8) (origin : UInt16) :
    machine.LoadsProgram bytes origin
      (machine.answerLoad (machine.loadProgram bytes origin)).1
      (machine.answerLoad (machine.loadProgram bytes origin)).2 := by
  by_cases hfits : origin.toNat + bytes.length ≤ 65536
  · rw [loadProgram_eq machine hfits]
    constructor
    case accepts => rw [decide_eq_true hfits]; rfl
    case refused => exact fun hlarge ↦ absurd hfits (Nat.not_le_of_lt hlarge)
    case given => exact fun _ ↦ ⟨rfl, machine.givenProgram_withProgram hfits⟩
    case started => exact fun _ ↦ machine.reset_iterate_withProgram
  · rw [loadProgram_eq_error machine hfits]
    have hrefuses := machine.refusesImage_answerLoad ⟨bytes.length, origin⟩
    constructor
    case accepts => rw [decide_eq_false hfits]; exact hrefuses.result
    case refused => exact fun _ ↦ hrefuses
    case given => exact fun h ↦ absurd h hfits
    case started => exact fun h ↦ absurd h hfits

/-- A program is loaded if it ends below the end of memory, and refused otherwise, also where it was
to be run. -/
theorem loads_program (machine : Machine) (bytes : List UInt8) (origin : UInt16) :
    (∃ response loaded, machine.perform (.loadProgram bytes origin) = some (response, loaded) ∧
      machine.LoadsProgram bytes origin response loaded) ∧
    (65536 < Memory.programOrigin.toNat + bytes.length → ∀ budget, ∃ response next,
      machine.perform (.loadAndRun budget bytes) = some (response, next) ∧
        machine.RefusesImage response next) := by
  constructor
  · exact ⟨_, _, rfl, machine.loadsProgram_answerLoad bytes origin⟩
  · intro hlarge budget
    have hrefuses := machine.refusesImage_answerLoad ⟨bytes.length, Memory.programOrigin⟩
    refine ⟨_, _, ?_, hrefuses⟩
    rw [perform, loadAndRun, loadProgram_eq_error machine (Nat.not_le_of_lt hlarge)]
    rfl

end Machine

end Mos6502
