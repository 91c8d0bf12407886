import Mos6502.Proofs.CarryChain
import Mos6502.Proofs.Ending

/-!
A program that halts behind more than 2^64 instructions. There are no jumps, but the program counter
wraps around at the top of memory, so a program begins again as long as it meets no break. This one
keeps a number of eight bytes in its own operands and counts it up by one in each turn. When the
number overflows, the program puts a break in front of itself.

`Machine.completes_count` is the part of a turn that counts, by induction on the digits, and
`Machine.completes_turn` the whole of it up to the place of the break. Turns in a row are put
together in `Machine.exists_stopsAfter_of_isOdometer`.
-/

set_option autoImplicit false
set_option relaxedAutoImplicit false

namespace Mos6502

/-! ### The program -/

/-- Instructions that add the carry to a number. Each group has its digit as the operand of its
load, and stores the result there. -/
def countProgram (address : UInt16) : List UInt8 → List UInt8
  | [] => []
  | digit :: rest =>
      digitGroup 0x69 (address + 1) digit 0x00 ++ countProgram (address + 7) rest

theorem length_countProgram (address : UInt16) (digits : List UInt8) :
    (countProgram address digits).length = 7 * digits.length := by
  induction digits generalizing address with
  | nil => rfl
  | cons digit rest ih =>
    rw [countProgram, List.length_append, length_digitGroup, ih, List.length_cons]
    omega

/-- Instructions that put a break at a place if there is a carry, and otherwise an instruction that
does nothing. -/
def brakeProgram (place : UInt16) : List UInt8 :=
  [0xA9, 0xFF, 0x69, 0x00, 0x29, 0xEA, 0x8D, lowByte place, highByte place]

/-- The place of the break, right behind the program. -/
def brakePlace : UInt16 := 66

/-- The whole program: it sets the carry, adds it to its number, and has a break come next if there
is a carry out of the last digit. -/
def odometerProgram (digits : List UInt8) : List UInt8 :=
  0x38 :: (countProgram 1 digits ++ brakeProgram brakePlace)

/-- Whether a memory holds the program with a number of eight digits, and instructions that do
nothing everywhere else. -/
structure IsOdometer (memory : Memory) (digits : List UInt8) : Prop where
  length : digits.length = 8
  program : memory.Holds 0 (odometerProgram digits)
  idle : ∀ place : UInt16, brakePlace ≤ place → memory.read place = 0xEA

namespace Machine

/-! ### The parts of a turn -/

section Parts

variable {machine : Machine} (hrunning : machine.state = .running)
include hrunning

/-- The instructions that count complete, and leave the digits of the number with the carry added.
Nothing is written outside of them. -/
theorem completes_count {digits : List UInt8}
    (hcode : machine.memory.Holds machine.registers.pc
      (countProgram machine.registers.pc digits))
    (hfits : machine.registers.pc.toNat + 7 * digits.length < 65536) :
    ∃ last counted, machine.Completes (3 * digits.length) last ∧ last.state = .running ∧
      last.registers.pc = machine.registers.pc + UInt16.ofNat (7 * digits.length) ∧
      counted.length = digits.length ∧
      last.memory.Holds machine.registers.pc (countProgram machine.registers.pc counted) ∧
      (∀ other : UInt16, other.toNat < machine.registers.pc.toNat ∨
        machine.registers.pc.toNat + 7 * digits.length ≤ other.toNat →
          last.memory.read other = machine.memory.read other) ∧
      littleEndian counted + 256 ^ digits.length * last.registers.status.carry.toNat =
        littleEndian digits + machine.registers.status.carry.toNat := by
  have hadds (registers : Registers) (operand : UInt8) :
      Operation.adc.apply registers operand = registers.addWithCarry (id operand) := rfl
  induction digits generalizing machine with
  | nil =>
    refine ⟨machine, [], .refl machine, hrunning, (UInt16.add_zero _).symm, rfl, hcode,
      fun _ _ ↦ rfl, ?_⟩
    rw [List.length_nil, pow_zero, Nat.one_mul]
  | cons digit rest ih =>
    rw [List.length_cons] at hfits
    obtain ⟨next, sum, hgroup, hrunningNext, hpc, hmemory, hdigit⟩ :=
      completes_group rfl hadds hrunning hcode
    have hpcNext : next.registers.pc.toNat = machine.registers.pc.toNat + 7 := by
      rw [hpc]
      exact toNat_add_ofNat machine.registers.pc 7 (by omega)
    have hfitsCode : machine.registers.pc.toNat +
        (countProgram machine.registers.pc (digit :: rest)).length < 65536 := by
      rw [length_countProgram, List.length_cons]
      omega
    -- The store goes to the operand of the load, so the group now holds the sum.
    have hcodeNext : next.memory.Holds machine.registers.pc
        (digitGroup 0x69 (machine.registers.pc + 1) sum 0x00 ++
          countProgram (machine.registers.pc + 7) rest) := by
      rw [hmemory]
      exact Memory.Holds.overwrite [0xA9] hcode hfitsCode sum
    obtain ⟨hhead, hrest⟩ := Memory.holds_append_iff.mp hcodeNext
    change next.memory.Holds (machine.registers.pc + 7) _ at hrest
    rw [← hpc] at hrest
    obtain ⟨last, counted, hcompletes, hrunningLast, hpcLast, hcount, hcounted, hframe, hsum⟩ :=
      ih hrunningNext hrest (by omega)
    have hplace : (machine.registers.pc + 1).toNat = machine.registers.pc.toNat + 1 :=
      toNat_add_ofNat machine.registers.pc 1 (by omega)
    refine ⟨last, sum :: counted, ?_, hrunningLast, ?_, congrArg Nat.succ hcount, ?_, ?_, ?_⟩
    · rw [List.length_cons, Nat.mul_succ, Nat.add_comm]
      exact hgroup.trans hcompletes
    · rw [hpcLast, hpc, List.length_cons, add_seven_add_ofNat]
    · rw [hpc] at hcounted
      refine Memory.holds_append_iff.mpr ⟨hhead.congr ?_ fun other _ hother ↦ ?_, hcounted⟩
      · rw [length_digitGroup]
        omega
      · exact hframe other (.inl (by rw [hpcNext]; exact hother))
    · intro other hother
      rw [List.length_cons] at hother
      rw [hframe other (by omega), hmemory, Memory.read_write, if_neg]
      rintro rfl
      omega
    · have hlow : sum.toNat + 256 * next.registers.status.carry.toNat =
          digit.toNat + machine.registers.status.carry.toNat := by
        simpa [littleEndian_cons] using hdigit.sum
      exact littleEndian_cons_of_carry hlow hsum

/-- The instructions in front of the break's place complete, and put there what the carry asks
for. -/
theorem completes_brake {place : UInt16}
    (hcode : machine.memory.Holds machine.registers.pc (brakeProgram place)) :
    ∃ next, machine.Completes 4 next ∧ next.state = .running ∧
      next.registers.pc = machine.registers.pc + 9 ∧
      next.memory =
        machine.memory.write place (if machine.registers.status.carry then 0x00 else 0xEA) := by
  obtain ⟨loaded, hfirstStep, hrunning, hloaded, hones, hpc, hcode⟩ :=
    completes_immediate hrunning rfl hcode
  obtain ⟨added, hsecondStep, hrunning, hadded, hsummed, hpcAdded, hcode⟩ :=
    completes_immediate hrunning rfl hcode
  obtain ⟨masked, hthirdStep, hrunning, hmasked, hand, hpcMasked, hcode⟩ :=
    completes_immediate hrunning rfl hcode
  obtain ⟨next, hfourthStep, hrunning, hwritten, hstored⟩ := completes_store hrunning hcode
  have hbyte : masked.registers.a =
      if machine.registers.status.carry then 0x00 else 0xEA := by
    have hcarry : loaded.registers.status.carry = machine.registers.status.carry := by
      rw [hones]
      rfl
    have hall : loaded.registers.a = 0xFF := by
      rw [hones]
      rfl
    have hsum : added.registers.a =
        UInt8.ofNat (loaded.registers.a.toNat + 0 + loaded.registers.status.carry.toNat) := by
      rw [hsummed]
      exact Registers.a_addWithCarry (loaded.registers.advance 1) 0x00
    rw [hand]
    show added.registers.a &&& 0xEA = _
    rw [hsum, hall, hcarry]
    cases machine.registers.status.carry <;> rfl
  refine ⟨next, ((hfirstStep.trans hsecondStep).trans hthirdStep).trans hfourthStep, hrunning, ?_,
    ?_⟩
  · rw [hstored]
    show masked.registers.pc + 1 + 2 = _
    rw [hpcMasked, hpcAdded, hpc]
    simp only [UInt16.add_assoc]
    rfl
  · rw [hwritten, hmasked, hadded, hloaded, hbyte]

/-- Instructions that do nothing complete. -/
theorem completes_idle {count : Nat}
    (hidle : ∀ offset < count,
      machine.memory.read (machine.registers.pc + UInt16.ofNat offset) = 0xEA) :
    ∃ last, machine.Completes count last ∧ last.state = .running ∧
      last.memory = machine.memory ∧
      last.registers.pc = machine.registers.pc + UInt16.ofNat count := by
  induction count generalizing machine with
  | zero => exact ⟨machine, .refl machine, hrunning, rfl, (UInt16.add_zero _).symm⟩
  | succ count ih =>
    have hshift (offset : Nat) : machine.registers.pc + 1 + UInt16.ofNat offset =
        machine.registers.pc + UInt16.ofNat (offset + 1) := by
      rw [UInt16.ofNat_add, UInt16.add_comm (UInt16.ofNat offset), ← UInt16.add_assoc]
      rfl
    have hopcode : machine.memory.read machine.registers.pc = 0xEA := by
      have hfirst := hidle 0 (Nat.succ_pos count)
      rwa [show machine.registers.pc + UInt16.ofNat 0 = _ from UInt16.add_zero _] at hfirst
    have hnop : decode (machine.memory.read machine.registers.pc) = some (.act .nop) := by
      rw [hopcode]
      rfl
    obtain ⟨next, hstep, hrunning, hmemory, hregisters⟩ := completes_act hrunning hnop
    have hpc : next.registers.pc = machine.registers.pc + 1 := by
      rw [hregisters]
      exact UInt16.add_zero _
    obtain ⟨last, hcompletes, hrunning, hkept, hpcLast⟩ := ih hrunning fun offset hoffset ↦ by
      rw [hmemory, hpc, hshift]
      exact hidle (offset + 1) (Nat.succ_lt_succ hoffset)
    refine ⟨last, ?_, hrunning, hkept.trans hmemory, ?_⟩
    · rw [Nat.add_comm]
      exact hstep.trans hcompletes
    · rw [hpcLast, hpc, hshift]

end Parts

/-! ### Turns -/

theorem length_odometerProgram {digits : List UInt8} (hlength : digits.length = 8) :
    (odometerProgram digits).length = 66 := by
  rw [odometerProgram, List.length_cons, List.length_append, length_countProgram, hlength]
  rfl

/-- A turn up to the place of the break counts up by one, and the carry out of the last digit
decides what comes next. -/
theorem completes_turn {machine : Machine} (hrunning : machine.state = .running)
    (hpc : machine.registers.pc = 0) {digits : List UInt8}
    (hodometer : IsOdometer machine.memory digits) :
    ∃ next counted, ∃ carry : Bool, machine.Completes 29 next ∧ next.state = .running ∧
      next.registers.pc = brakePlace ∧ counted.length = 8 ∧
      next.memory.Holds 0 (odometerProgram counted) ∧
      next.memory.read brakePlace = (if carry then 0x00 else 0xEA) ∧
      (∀ place : UInt16, brakePlace < place → next.memory.read place = 0xEA) ∧
      littleEndian counted + 256 ^ 8 * carry.toNat = littleEndian digits + 1 := by
  obtain ⟨hlength, hprogram, hidle⟩ := hodometer
  obtain ⟨hset, hcode⟩ := Memory.holds_cons_iff.mp hprogram
  have hsec : decode (machine.memory.read machine.registers.pc) = some (.act .sec) := by
    rw [hpc, hset]
    rfl
  obtain ⟨start, hfirst, hrunningStart, hstart, hregisters⟩ := completes_act hrunning hsec
  have hpcStart : start.registers.pc = 1 := by
    rw [hregisters]
    show machine.registers.pc + 1 + 0 = 1
    rw [hpc]
    rfl
  have hcarry : start.registers.status.carry = true := by
    rw [hregisters]
    rfl
  rw [← hstart] at hset hcode hidle
  obtain ⟨hcount, hbrake⟩ := Memory.holds_append_iff.mp hcode
  obtain ⟨last, counted, hsecond, hrunningLast, hpcLast, hcountedLength, hcounted, hframe, hsum⟩ :=
    completes_count hrunningStart (by rwa [hpcStart]) (by rw [hpcStart, hlength]; decide)
  rw [hpcStart, hlength] at hframe
  have hbrakeLast : last.memory.Holds 57 (brakeProgram brakePlace) := by
    rw [length_countProgram, hlength] at hbrake
    refine hbrake.congr (by decide) fun place hfrom _ ↦ hframe place (.inr hfrom)
  rw [hpcStart, hlength] at hpcLast
  obtain ⟨next, hthird, hrunningNext, hpcNext, hmemory⟩ :=
    completes_brake hrunningLast (by rwa [hpcLast])
  rw [hpcStart] at hcounted
  refine ⟨next, counted, last.registers.status.carry, ?_, hrunningNext, ?_,
    hcountedLength.trans hlength, ?_, ?_, fun place hplace ↦ ?_, ?_⟩
  · rw [hlength] at hsecond
    exact (hfirst.trans hsecond).trans hthird
  · rw [hpcNext, hpcLast]
    rfl
  · have hlast : last.memory.Holds 0 (odometerProgram counted) := by
      refine Memory.holds_cons_iff.mpr ⟨?_, Memory.holds_append_iff.mpr ⟨hcounted, ?_⟩⟩
      · rw [hframe 0 (.inl (by decide)), hset]
      · rw [length_countProgram, hcountedLength, hlength]
        exact hbrakeLast
    rw [hmemory]
    refine hlast.write ?_ (.inr ?_) _
    · rw [length_odometerProgram (hcountedLength.trans hlength)]
      decide
    · rw [length_odometerProgram (hcountedLength.trans hlength)]
      decide
  · rw [hmemory, Memory.read_write, if_pos rfl]
  · have hother : brakePlace ≠ place := UInt16.ne_of_lt hplace
    have hbehind : brakePlace ≤ place := UInt16.le_of_lt hplace
    rw [hmemory, Memory.read_write, if_neg hother, hframe place (.inr ?_), hidle place hbehind]
    exact Nat.le_trans (by decide) (UInt16.le_iff_toNat_le.mp hbehind)
  · rw [hlength, hcarry] at hsum
    exact hsum

/-- From the place of the break, if there is none, a machine comes back to the first address. -/
theorem completes_return {machine : Machine} (hrunning : machine.state = .running)
    (hpc : machine.registers.pc = brakePlace)
    (hidle : ∀ place : UInt16, brakePlace ≤ place → machine.memory.read place = 0xEA) :
    ∃ next, machine.Completes 65470 next ∧ next.state = .running ∧
      next.memory = machine.memory ∧ next.registers.pc = 0 := by
  have hahead : ∀ offset < 65470,
      machine.memory.read (machine.registers.pc + UInt16.ofNat offset) = 0xEA := by
    intro offset hoffset
    have hplace : (brakePlace + UInt16.ofNat offset).toNat = brakePlace.toNat + offset :=
      toNat_add_ofNat brakePlace offset (Nat.add_lt_add_left hoffset 66)
    rw [hpc]
    exact hidle _ (UInt16.le_iff_toNat_le.mpr (by omega))
  obtain ⟨next, hcompletes, hrunningNext, hmemory, hpcNext⟩ := completes_idle hrunning hahead
  refine ⟨next, hcompletes, hrunningNext, hmemory, ?_⟩
  rw [hpcNext, hpc]
  decide

/-- A machine that has more turns in front of it than a number completes more instructions than
that, and then halts. -/
theorem exists_stopsAfter_of_isOdometer {machine : Machine} (hrunning : machine.state = .running)
    (hpc : machine.registers.pc = 0) {digits : List UInt8}
    (hodometer : IsOdometer machine.memory digits) {turns : Nat}
    (hturns : littleEndian digits + turns + 1 = 256 ^ 8) :
    ∃ count final, turns < count ∧ machine.StopsAfter count .halted final := by
  induction turns generalizing machine digits with
  | zero =>
    obtain ⟨next, counted, carry, hturn, hrunningNext, hpcNext, hlength, -, hbrake, -, hsum⟩ :=
      completes_turn hrunning hpc hodometer
    have hcarry : carry = true := by
      have hlt := littleEndian_lt counted
      rw [hlength] at hlt
      cases carry with
      | true => rfl
      | false =>
        rw [Bool.toNat_false] at hsum
        omega
    obtain ⟨final, hhalts, -⟩ := step_brk hrunningNext (by rw [hpcNext, hbrake, hcarry]; rfl)
    have hstops : next.StopsAfter 0 .halted final :=
      ⟨.refl next, hhalts, Outcome.noConfusion⟩
    exact ⟨29, final, by decide, hturn.stopsAfter hstops⟩
  | succ turns ih =>
    obtain ⟨next, counted, carry, hturn, hrunningNext, hpcNext, hlength, hprogram, hbrake, hidle,
      hsum⟩ := completes_turn hrunning hpc hodometer
    have hcarry : carry = false := by
      cases carry with
      | false => rfl
      | true =>
        rw [Bool.toNat_true] at hsum
        omega
    subst hcarry
    rw [Bool.toNat_false] at hsum
    have hidleNext (place : UInt16) (hplace : brakePlace ≤ place) :
        next.memory.read place = 0xEA := by
      rcases UInt16.lt_or_eq_of_le hplace with hbehind | rfl
      · exact hidle place hbehind
      · exact hbrake
    obtain ⟨again, hreturn, hrunningAgain, hmemory, hpcAgain⟩ :=
      completes_return hrunningNext hpcNext hidleNext
    obtain ⟨count, final, hcount, hstops⟩ :=
      ih hrunningAgain hpcAgain (by rw [hmemory]; exact ⟨hlength, hprogram, hidleNext⟩)
        (by omega : littleEndian counted + turns + 1 = 256 ^ 8)
    exact ⟨29 + 65470 + count, final, by omega, (hturn.trans hreturn).stopsAfter hstops⟩

/-! ### The machine -/

/-- A machine with the program at the beginning of its memory, and a number that is zero. -/
def odometer : Machine where
  memory :=
    (Memory.ofFn fun _ ↦ 0xEA).writeBytes 0 (odometerProgram (List.replicate 8 0x00))

theorem isOdometer_odometer : IsOdometer odometer.memory (List.replicate 8 0x00) := by
  have hlength : (odometerProgram (List.replicate 8 0x00)).length = 66 :=
    length_odometerProgram rfl
  have hfits : (0 : UInt16).toNat + (odometerProgram (List.replicate 8 0x00)).length ≤ 65536 := by
    rw [hlength]
    decide
  refine ⟨rfl, Memory.holds_writeBytes _ hfits, fun place hplace ↦ ?_⟩
  have hfrom : (0 : UInt16).toNat ≤ place.toNat := Nat.zero_le _
  have hbehind : 66 ≤ place.toNat := UInt16.le_iff_toNat_le.mp hplace
  rw [odometer, Memory.read_writeBytes _ hfits, if_pos hfrom,
    List.getElem?_eq_none (by rw [hlength]; exact hbehind), Option.getD_none, Memory.read_ofFn]

/-- The machine halts once it has completed 2^64 instructions, or more. -/
theorem odometer_stopsAfter :
    ∃ count final, 2 ^ 64 ≤ count ∧ odometer.StopsAfter count .halted final := by
  obtain ⟨count, final, hcount, hstops⟩ :=
    exists_stopsAfter_of_isOdometer rfl rfl isOdometer_odometer
      (by decide : littleEndian (List.replicate 8 0x00) + (2 ^ 64 - 1) + 1 = 256 ^ 8)
  exact ⟨count, final, Nat.le_of_pred_lt hcount, hstops⟩

end Machine

end Mos6502
