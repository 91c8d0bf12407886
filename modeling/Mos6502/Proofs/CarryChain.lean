import Mos6502.Proofs.Completion
import Mos6502.Proofs.LittleEndian
import Mos6502.Proofs.Placement

/-!
Arithmetic on numbers of many bytes, as a program does it: for one byte after the other, the low
one first, it loads the byte of the first number, adds or subtracts that of the second one, and
stores the result. The carry goes from each byte to the next.

`IsSum` says what such a program is to leave: the digits and the carry make up the sum of the
numbers and the first carry, the overflow flag tells whether the signed sum leaves its range, and
the negative flag the sign of the digits. Sums are put together digit by digit (`IsSum.cons`), as
the program does it (`Machine.completes_chain`), and a difference is the sum with a complement.

`Machine.run_chain` is the result for both programs, from loading to the halt.
-/

set_option autoImplicit false
set_option relaxedAutoImplicit false

namespace Mos6502

/-! ### Sums of many digits -/

/-- Whether digits and flags are those of the sum of two numbers and a carry. -/
structure IsSum (carry : Bool) (first second digits : List UInt8) (status : Status) : Prop where
  sum : littleEndian digits + 256 ^ first.length * status.carry.toNat =
    littleEndian first + littleEndian second + carry.toNat
  overflow : status.overflow = true ↔
    ¬FitsSigned first.length (twosComplement first + twosComplement second + carry.toNat)
  negative : digits.getLast?.map Status.isNegative = some status.negative

namespace IsSum

/-- The sum of single digits is what the accumulator holds after one addition. -/
theorem single (registers : Registers) (operand : UInt8) :
    IsSum registers.status.carry [registers.a] [operand] [(registers.addWithCarry operand).a]
      (registers.addWithCarry operand).status where
  sum := by
    simpa [littleEndian_cons] using registers.toNat_addWithCarry operand
  overflow := by
    rw [twosComplement_singleton, twosComplement_singleton, List.length_singleton,
      fitsSigned_one_iff]
    exact registers.overflow_addWithCarry operand
  negative := rfl

/-- A sum of digits followed by the sum of the other ones, with the carry between them. -/
theorem cons {carry : Bool} {low other digit : UInt8} {first second digits : List UInt8}
    {middle status : Status} (hlow : IsSum carry [low] [other] [digit] middle)
    (hrest : IsSum middle.carry first second digits status) (hfirst : first ≠ [])
    (hsecond : second ≠ []) (hdigits : digits ≠ []) :
    IsSum carry (low :: first) (other :: second) (digit :: digits) status := by
  have hcarry : digit.toNat + 256 * middle.carry.toNat =
      low.toNat + other.toNat + carry.toNat := by
    simpa [littleEndian_cons] using hlow.sum
  refine ⟨?_, ?_, ?_⟩
  · rw [List.length_cons, littleEndian_cons_of_carry hcarry hrest.sum, littleEndian_cons,
      littleEndian_cons]
    ring
  · have hvalue : twosComplement (low :: first) + twosComplement (other :: second) + carry.toNat =
        digit.toNat +
          256 * (twosComplement first + twosComplement second + middle.carry.toNat) := by
      rw [twosComplement_cons low hfirst, twosComplement_cons other hsecond]
      omega
    have hcount : first.length ≠ 0 := fun h ↦ hfirst (List.length_eq_zero_iff.mp h)
    rw [hrest.overflow, hvalue, List.length_cons, fitsSigned_succ_iff digit.toNat_lt hcount]
  · rw [List.getLast?_cons_of_ne_nil hdigits]
    exact hrest.negative

end IsSum

/-! ### The program -/

/-- The instructions for one digit: load a byte, use the one after an opcode on it, and store the
result at a place. -/
def digitGroup (opcode : UInt8) (place : UInt16) (first second : UInt8) : List UInt8 :=
  [0xA9, first, opcode, second, 0x8D, lowByte place, highByte place]

theorem length_digitGroup (opcode : UInt8) (place : UInt16) (first second : UInt8) :
    (digitGroup opcode place first second).length = 7 := rfl

/-- The addresses behind one group and behind others that follow it. -/
theorem add_seven_add_ofNat (address : UInt16) (count : Nat) :
    address + 7 + UInt16.ofNat (7 * count) = address + UInt16.ofNat (7 * (count + 1)) := by
  rw [Nat.mul_succ, Nat.add_comm, UInt16.ofNat_add, ← UInt16.add_assoc]
  rfl

/-- The instructions for pairs of digits, with the results one after the other from a place on, and
a break. -/
def chainProgram (opcode : UInt8) (place : UInt16) : List (UInt8 × UInt8) → List UInt8
  | [] => [0x00]
  | (first, second) :: rest =>
      digitGroup opcode place first second ++ chainProgram opcode (place + 1) rest

theorem length_chainProgram (opcode : UInt8) (place : UInt16) (pairs : List (UInt8 × UInt8)) :
    (chainProgram opcode place pairs).length = 7 * pairs.length + 1 := by
  induction pairs generalizing place with
  | nil => rfl
  | cons pair rest ih =>
    rw [chainProgram, List.length_append, length_digitGroup, ih, List.length_cons]
    omega

/-- The program for the other digits stays in place when the first result is stored below it. -/
theorem holds_chainProgram_rest {memory : Memory} {address place : UInt16} {opcode : UInt8}
    {pair : UInt8 × UInt8} {rest : List (UInt8 × UInt8)}
    (hcode : memory.Holds address (chainProgram opcode place (pair :: rest)))
    (hbelow : place.toNat < address.toNat)
    (hfits : address.toNat + (7 * (rest.length + 1) + 1) ≤ 65536) (digit : UInt8) :
    (memory.write place digit).Holds (address + 7) (chainProgram opcode (place + 1) rest) := by
  have hlength := length_chainProgram opcode (place + 1) rest
  have hnext : (address + 7).toNat = address.toNat + 7 := toNat_add_ofNat address 7 (by omega)
  have hrest : memory.Holds (address + 7) (chainProgram opcode (place + 1) rest) :=
    (Memory.holds_append_iff.mp hcode).2
  exact hrest.write (by omega) (.inl (by omega)) digit

namespace Machine

/-- The machine with another carry flag. -/
def withCarry (machine : Machine) (carry : Bool) : Machine :=
  { machine with
    registers := { machine.registers with status := machine.registers.status.withCarry carry } }

section Held

variable {machine : Machine} (hrunning : machine.state = .running)
include hrunning

/-- A step at an operation with an immediate operand, and what lies behind it. -/
theorem completes_immediate {opcode operand : UInt8} {operation : Operation} {rest : List UInt8}
    (hdecode : decode opcode = some (.operate operation .immediate))
    (hcode : machine.memory.Holds machine.registers.pc (opcode :: operand :: rest)) :
    ∃ next, machine.Completes 1 next ∧ next.state = .running ∧ next.memory = machine.memory ∧
      next.registers = (operation.apply (machine.registers.advance 1) operand).advance 1 ∧
      next.registers.pc = machine.registers.pc + 2 ∧
      next.memory.Holds next.registers.pc rest := by
  obtain ⟨hopcode, hbehind⟩ := Memory.holds_cons_iff.mp hcode
  obtain ⟨hoperand, hrest⟩ := Memory.holds_cons_iff.mp hbehind
  obtain ⟨next, hcompletes, hrunning, hmemory, hregisters⟩ :=
    completes_operate_immediate hrunning (by rw [hopcode, hdecode])
  rw [hoperand] at hregisters
  have hpc : next.registers.pc = machine.registers.pc + 1 + 1 := by
    rw [hregisters]
    exact congrArg (· + 1) ((Instruction.operate operation .immediate).pc_apply _ _)
  refine ⟨next, hcompletes, hrunning, hmemory, hregisters, ?_, ?_⟩
  · rw [hpc, UInt16.add_assoc]
    rfl
  · rwa [hmemory, hpc]

/-- A step at a store of the accumulator to a place. -/
theorem completes_store {place : UInt16} {rest : List UInt8}
    (hcode : machine.memory.Holds machine.registers.pc
      (0x8D :: lowByte place :: highByte place :: rest)) :
    ∃ next, machine.Completes 1 next ∧ next.state = .running ∧
      next.memory = machine.memory.write place machine.registers.a ∧
      next.registers = (machine.registers.advance 1).advance 2 := by
  simp only [Memory.holds_cons_iff] at hcode
  obtain ⟨hopcode, hlow, hhigh, -⟩ := hcode
  have hsta : decode (machine.memory.read machine.registers.pc) = some (.store .sta .absolute) := by
    rw [hopcode]
    rfl
  obtain ⟨next, hcompletes, hrunning, hwritten, hregisters⟩ :=
    completes_store_absolute hrunning hsta
  have hplace : machine.memory.readWord (machine.registers.pc + 1) = place := by
    rw [Memory.readWord, hlow, hhigh, word_lowByte_highByte]
  rw [hplace] at hwritten
  exact ⟨next, hcompletes, hrunning, hwritten, hregisters⟩

end Held

section Chain

variable {opcode : UInt8} {operation : Operation} {addend : UInt8 → UInt8}
  (hdecode : decode opcode = some (.operate operation .immediate))
  (hadds : ∀ registers operand,
    operation.apply registers operand = registers.addWithCarry (addend operand))
include hdecode hadds

/-- The instructions for one digit complete, and leave their sum. -/
theorem completes_group {machine : Machine} (hrunning : machine.state = .running) {place : UInt16}
    {first second : UInt8} {rest : List UInt8}
    (hcode : machine.memory.Holds machine.registers.pc
      (digitGroup opcode place first second ++ rest)) :
    ∃ next digit, machine.Completes 3 next ∧ next.state = .running ∧
      next.registers.pc = machine.registers.pc + 7 ∧
      next.memory = machine.memory.write place digit ∧
      IsSum machine.registers.status.carry [first] [addend second] [digit]
        next.registers.status := by
  obtain ⟨loaded, hfirstStep, hrunning, hloaded, hregisters, hpc, hcode⟩ :=
    completes_immediate hrunning rfl hcode
  obtain ⟨added, hsecondStep, hrunning, hadded, hsummed, hpcAdded, hcode⟩ :=
    completes_immediate hrunning hdecode hcode
  obtain ⟨next, hthirdStep, hrunning, hwritten, hstored⟩ := completes_store hrunning hcode
  refine ⟨next, added.registers.a, (hfirstStep.trans hsecondStep).trans hthirdStep, hrunning, ?_,
    ?_, ?_⟩
  · rw [hstored]
    show added.registers.pc + 1 + 2 = _
    rw [hpcAdded, hpc]
    simp only [UInt16.add_assoc]
    rfl
  · rw [hwritten, hadded, hloaded]
  · rw [hstored]
    show IsSum _ _ _ _ added.registers.status
    rw [hsummed, hadds]
    have hsum := IsSum.single (loaded.registers.advance 1) (addend second)
    rw [hregisters] at hsum ⊢
    exact hsum

/-- The instructions for all digits complete, and leave the sum of the numbers that the pairs
hold. They touch nothing below the place of the first digit, and stop at the break. -/
theorem completes_chain {pairs : List (UInt8 × UInt8)} (hpairs : pairs ≠ []) {machine : Machine}
    (hrunning : machine.state = .running) {place : UInt16}
    (hcode : machine.memory.Holds machine.registers.pc (chainProgram opcode place pairs))
    (hbelow : place.toNat + pairs.length ≤ machine.registers.pc.toNat)
    (hfits : machine.registers.pc.toNat + (7 * pairs.length + 1) ≤ 65536) :
    ∃ last, machine.Completes (3 * pairs.length) last ∧ last.state = .running ∧
      last.registers.pc = machine.registers.pc + UInt16.ofNat (7 * pairs.length) ∧
      last.memory.read last.registers.pc = 0x00 ∧
      (∀ other : UInt16, other.toNat < place.toNat →
        last.memory.read other = machine.memory.read other) ∧
      IsSum machine.registers.status.carry (pairs.map Prod.fst)
        (pairs.map fun pair ↦ addend pair.2) (last.memory.readBytes place pairs.length)
        last.registers.status := by
  induction pairs generalizing machine place with
  | nil => exact absurd rfl hpairs
  | cons pair rest ih =>
    rw [List.length_cons] at hbelow hfits
    obtain ⟨next, digit, hgroup, hrunningNext, hpc, hmemory, hdigit⟩ :=
      completes_group hdecode hadds hrunning hcode
    have hpcNext : next.registers.pc.toNat = machine.registers.pc.toNat + 7 := by
      rw [hpc]
      exact toNat_add_ofNat machine.registers.pc 7 (by omega)
    have hcodeNext :
        next.memory.Holds next.registers.pc (chainProgram opcode (place + 1) rest) := by
      rw [hmemory, hpc]
      exact holds_chainProgram_rest hcode (by omega) hfits digit
    have hread (other : UInt16) (hother : place ≠ other) :
        next.memory.read other = machine.memory.read other := by
      rw [hmemory, Memory.read_write, if_neg hother]
    by_cases hlast : rest = []
    · subst hlast
      refine ⟨next, hgroup, hrunningNext, hpc, (Memory.holds_cons_iff.mp hcodeNext).1,
        fun other hother ↦ hread other fun h ↦ ?_, ?_⟩
      · rw [h] at hother
        exact Nat.lt_irrefl _ hother
      · rw [List.length_singleton, Memory.readBytes_succ, hmemory, Memory.read_write, if_pos rfl]
        exact hdigit
    · have hcount : rest.length ≠ 0 := fun h ↦ hlast (List.length_eq_zero_iff.mp h)
      have hplace : (place + 1).toNat = place.toNat + 1 := toNat_add_ofNat place 1 (by omega)
      obtain ⟨last, hrest, hrunningLast, hpcLast, hbreak, hframe, hsum⟩ :=
        ih hlast hrunningNext hcodeNext (by omega) (by omega)
      refine ⟨last, ?_, hrunningLast, ?_, hbreak, fun other hother ↦ ?_, ?_⟩
      · rw [List.length_cons, Nat.mul_succ, Nat.add_comm]
        exact hgroup.trans hrest
      · rw [hpcLast, hpc, List.length_cons, add_seven_add_ofNat]
      · rw [hframe other (by omega), hread other fun h ↦ ?_]
        rw [h] at hother
        exact Nat.lt_irrefl _ hother
      · have hfirstDigit : last.memory.read place = digit := by
          rw [hframe place (by omega), hmemory, Memory.read_write, if_pos rfl]
        rw [List.length_cons, Memory.readBytes_succ, hfirstDigit, List.map_cons, List.map_cons]
        refine hdigit.cons hsum ?_ ?_ ?_
        · exact fun h ↦ hlast (List.map_eq_nil_iff.mp h)
        · exact fun h ↦ hlast (List.map_eq_nil_iff.mp h)
        · exact fun h ↦ hcount (by simpa using congrArg List.length h)

/-- Loaded, reset and started with a carry, the program completes the instructions for all digits,
halts behind its break, and leaves the sum. -/
theorem run_withProgram_chain (machine : Machine) {pairs : List (UInt8 × UInt8)}
    (hpairs : pairs ≠ []) (hcount : pairs.length ≤ 4096) (carry : Bool) {budget : Nat}
    (hbudget : 3 * pairs.length < budget) :
    ∃ final,
      ((machine.withProgram (chainProgram opcode 0x0200 pairs) 0x8000).reset.withCarry carry).run
          budget = some (.ok (UInt64.ofNat (3 * pairs.length)), final) ∧
        final.state = .halted ∧
        final.registers.pc = 0x8000 + UInt16.ofNat (7 * pairs.length + 1) ∧
        IsSum carry (pairs.map Prod.fst) (pairs.map fun pair ↦ addend pair.2)
          (final.memory.readBytes 0x0200 pairs.length) final.registers.status := by
  have hlength := length_chainProgram opcode 0x0200 pairs
  have horigin : (0x8000 : UInt16).toNat = 32768 := rfl
  have hplace : (0x0200 : UInt16).toNat = 512 := rfl
  have hcode : (machine.withProgram (chainProgram opcode 0x0200 pairs) 0x8000).memory.Holds 0x8000
      (chainProgram opcode 0x0200 pairs) :=
    machine.holds_withProgram (by omega)
  generalize hready :
    (machine.withProgram (chainProgram opcode 0x0200 pairs) 0x8000).reset.withCarry carry = ready
  have hmemory : ready.memory =
      (machine.withProgram (chainProgram opcode 0x0200 pairs) 0x8000).memory := by
    rw [← hready]
    rfl
  have hpc : ready.registers.pc = 0x8000 := by
    rw [← hready]
    exact machine.pc_reset_withProgram _ _
  have hcarry : ready.registers.status.carry = carry := by
    rw [← hready]
    rfl
  have hrunning : ready.state = .running := by
    rw [← hready]
    rfl
  rw [← hmemory, ← hpc] at hcode
  obtain ⟨last, hcompletes, hrunningLast, hpcLast, hbreak, -, hsum⟩ :=
    completes_chain hdecode hadds hpairs hrunning hcode (by rw [hpc]; omega) (by rw [hpc]; omega)
  obtain ⟨final, hhalts, hhalted, hkept, hregisters⟩ :=
    step_brk hrunningLast (by rw [hbreak]; rfl)
  rw [hcarry] at hsum
  refine ⟨final, run_of_completes hcompletes hhalts hbudget, hhalted, ?_, ?_⟩
  · rw [hregisters, UInt16.ofNat_add, ← UInt16.add_assoc, ← hpc, ← hpcLast]
    rfl
  · rw [hregisters, hkept]
    exact ⟨hsum.sum, hsum.overflow, hsum.negative⟩

end Chain

/-- Whether the program that uses an opcode on all digits of two numbers, loaded into a machine,
reset and started with a carry, runs to its end and leaves a machine: three instructions for each
digit complete, the machine is halted behind the break, and the negative flag is the highest bit of
the last digit. -/
structure RunsChain (machine : Machine) (opcode : UInt8) (first second : List UInt8) (carry : Bool)
    (budget : Nat) (final : Machine) : Prop where
  run : ∃ loaded executed,
    machine.loadProgram (chainProgram opcode 0x0200 (first.zip second)) 0x8000 = .ok loaded ∧
      (loaded.reset.withCarry carry).run budget = some (.ok executed, final) ∧
      executed.toNat = 3 * first.length
  halted : final.state = .halted
  pc : final.registers.pc = 0x8000 + UInt16.ofNat (7 * first.length + 1)
  negative : final.registers.status.negative =
    Status.isNegative (final.memory.read (0x0200 + UInt16.ofNat (first.length - 1)))

/-- The digits that a machine holds after a run. -/
def digits (machine : Machine) (count : Nat) : List UInt8 := machine.memory.readBytes 0x0200 count

/-- The program runs to its end with the sum of the first number and the addends. -/
theorem exists_runsChain {opcode : UInt8} {operation : Operation} {addend : UInt8 → UInt8}
    (hdecode : decode opcode = some (.operate operation .immediate))
    (hadds : ∀ registers operand,
      operation.apply registers operand = registers.addWithCarry (addend operand))
    (machine : Machine) {first second : List UInt8} (hlength : second.length = first.length)
    (hpositive : 0 < first.length) (hcount : first.length ≤ 4096) (carry : Bool) {budget : Nat}
    (hbudget : 3 * first.length < budget) :
    ∃ final, machine.RunsChain opcode first second carry budget final ∧
      IsSum carry first (second.map addend) (final.digits first.length)
        final.registers.status := by
  have hzip : (first.zip second).length = first.length := by
    rw [List.length_zip, hlength, Nat.min_self]
  have hfirst : (first.zip second).map Prod.fst = first :=
    List.map_fst_zip (Nat.le_of_eq hlength.symm)
  have hsecond : ((first.zip second).map fun pair ↦ addend pair.2) = second.map addend := by
    conv => rhs; rw [← List.map_snd_zip (Nat.le_of_eq hlength), List.map_map]
    rfl
  have hpairs : first.zip second ≠ [] := by
    intro h
    rw [h] at hzip
    exact absurd hpositive (by rw [← hzip]; exact Nat.lt_irrefl 0)
  have hfits : (0x8000 : UInt16).toNat + (chainProgram opcode 0x0200 (first.zip second)).length ≤
      65536 := by
    have horigin : (0x8000 : UInt16).toNat = 32768 := rfl
    rw [length_chainProgram]
    omega
  obtain ⟨final, hrun, hhalted, hpc, hsum⟩ :=
    run_withProgram_chain hdecode hadds machine hpairs (by omega) carry
      (by omega : 3 * (first.zip second).length < budget)
  rw [hzip] at hrun hpc hsum
  rw [hfirst, hsecond] at hsum
  have hexecuted : (UInt64.ofNat (3 * first.length)).toNat = 3 * first.length :=
    UInt64.toNat_ofNat_of_lt' (Nat.lt_of_le_of_lt (Nat.mul_le_mul_left 3 hcount) (by decide))
  refine ⟨final, ⟨⟨_, _, machine.loadProgram_eq hfits, hrun, hexecuted⟩, hhalted, hpc, ?_⟩, hsum⟩
  have hlast : (final.memory.readBytes 0x0200 first.length).getLast? =
      some (final.memory.read (0x0200 + UInt16.ofNat (first.length - 1))) := by
    rw [Memory.readBytes, List.getLast?_map, List.getLast?_range, if_neg (by omega),
      Option.map_some]
  have hnegative := hsum.negative
  rw [hlast, Option.map_some] at hnegative
  exact (Option.some.inj hnegative).symm

/-- Arithmetic on numbers of up to 4096 bytes. Whatever the machine was before, the program for
additions leaves the sum of the numbers and the carry as digits and carry flag, and the program for
subtractions their difference, less one if it started without the carry, where a missing carry
flag tells of a borrow. The overflow flag tells whether the sum or difference of the signed numbers
leaves the range of as many bytes. -/
theorem run_chain (machine : Machine) (first second : List UInt8)
    (hlength : second.length = first.length) (hpositive : 0 < first.length)
    (hcount : first.length ≤ 4096) (carry : Bool) (budget : Nat)
    (hbudget : 3 * first.length < budget) :
    (∃ final, machine.RunsChain 0x69 first second carry budget final ∧
      littleEndian (final.digits first.length) +
          256 ^ first.length * final.registers.status.carry.toNat =
        littleEndian first + littleEndian second + carry.toNat ∧
      (final.registers.status.overflow = true ↔
        ¬FitsSigned first.length
          (twosComplement first + twosComplement second + carry.toNat))) ∧
    ∃ final, machine.RunsChain 0xE9 first second carry budget final ∧
      (littleEndian (final.digits first.length) : Int) =
        littleEndian first - littleEndian second - (1 - carry.toNat) +
          256 ^ first.length * (1 - final.registers.status.carry.toNat) ∧
      (final.registers.status.overflow = true ↔
        ¬FitsSigned first.length
          (twosComplement first - twosComplement second - (1 - carry.toNat))) := by
  constructor
  · have hdecode : decode 0x69 = some (.operate .adc .immediate) := rfl
    have hadds (registers : Registers) (operand : UInt8) :
        Operation.adc.apply registers operand = registers.addWithCarry (id operand) := rfl
    obtain ⟨final, hruns, hsum⟩ :=
      exists_runsChain hdecode hadds machine hlength hpositive hcount carry hbudget
    rw [List.map_id] at hsum
    exact ⟨final, hruns, hsum.sum, hsum.overflow⟩
  · have hdecode : decode 0xE9 = some (.operate .sbc .immediate) := rfl
    have hadds (registers : Registers) (operand : UInt8) :
        Operation.sbc.apply registers operand = registers.addWithCarry (~~~operand) := rfl
    obtain ⟨final, hruns, hsum⟩ :=
      exists_runsChain hdecode hadds machine hlength hpositive hcount carry hbudget
    have hsecond : second ≠ [] := List.ne_nil_of_length_pos (hlength ▸ hpositive)
    have hvalue : twosComplement first + twosComplement (second.map (~~~·)) + carry.toNat =
        twosComplement first - twosComplement second - (1 - carry.toNat) := by
      rw [twosComplement_complement hsecond]
      omega
    have hcomplement := littleEndian_complement second
    have hdigits : littleEndian (final.digits first.length) +
        256 ^ first.length * final.registers.status.carry.toNat =
          littleEndian first + littleEndian (second.map (~~~·)) + carry.toNat := hsum.sum
    rw [hlength] at hcomplement
    refine ⟨final, hruns, ?_, hvalue ▸ hsum.overflow⟩
    have hpower : (256 : Int) ^ first.length = (256 ^ first.length : Nat) := by push_cast; rfl
    rw [hpower, ← hcomplement]
    rw [← hcomplement] at hdigits
    cases hborrow : final.registers.status.carry
    · rw [hborrow, Bool.toNat_false] at hdigits
      rw [Bool.toNat_false]
      omega
    · rw [hborrow, Bool.toNat_true] at hdigits
      rw [Bool.toNat_true]
      omega

/-- The sum of 7FFF and one is 8000, which is no signed number of two bytes. -/
theorem run_chain_of_signed_overflow :
    let first : List UInt8 := [0xFF, 0x7F]
    let second : List UInt8 := [0x01, 0x00]
    second.length = first.length ∧ 0 < first.length ∧ first.length ≤ 4096 ∧ 3 * first.length < 7 ∧
      ∃ final, ({} : Machine).RunsChain 0x69 first second false 7 final ∧
        littleEndian (final.digits 2) + 256 ^ 2 * final.registers.status.carry.toNat = 0x8000 ∧
        final.registers.status.overflow = true := by
  refine ⟨rfl, by decide, by decide, by decide, ?_⟩
  obtain ⟨final, hruns, hsum, hoverflow⟩ := (run_chain {} [0xFF, 0x7F] [0x01, 0x00] rfl
    (by decide) (by decide) false 7 (by decide)).1
  exact ⟨final, hruns, hsum, hoverflow.mpr (by decide)⟩

end Machine

end Mos6502
