import Mathlib.Tactic.Common
import Mos6502.Proofs.Cycle

/-!
Where the two rules for the indirect modes differ. For `(indirect,X)` the legacy rule takes the high
byte of the pointer from two places and puts both over one another. The places are the same unless
the pointer begins at the last address of the zero page: there the canonical rule goes on at the
start of the page, and the legacy rule also takes the byte behind the page
(`Mode.effectiveAddress_indirectX_eq_iff`). So the addresses agree if that byte has no bit that the
other one lacks (`Memory.RulesAgreeAt`).

For `(indirect),Y` the legacy rule follows no pointer at all. As long as a program does not use that
mode, and the addresses of `(indirect,X)` agree each time, its run is the same under both rules
(`Machine.indirectRules_agree`), although it may change the bytes that the pointers are made of.
-/

set_option autoImplicit false
set_option relaxedAutoImplicit false

namespace Mos6502

/-! ### Bits of a high byte -/

/-- Putting a byte over another one changes nothing if it has no bit that the other one lacks. -/
theorem or_eq_left_iff (byte other : UInt8) : byte ||| other = byte ↔ other &&& ~~~byte = 0 := by
  rw [← UInt8.toBitVec_inj, ← UInt8.toBitVec_inj, UInt8.toBitVec_or, UInt8.toBitVec_and,
    UInt8.toBitVec_not]
  constructor
  · intro hsame
    ext index hindex
    have hbit : (byte.toBitVec ||| other.toBitVec)[index] = byte.toBitVec[index] := by rw [hsame]
    simpa using hbit
  · intro hnone
    ext index hindex
    have hbit : (other.toBitVec &&& ~~~byte.toBitVec)[index] = false := by simp [hnone]
    simpa using hbit

theorem word_inj_high (low first second : UInt8) :
    word low first = word low second ↔ first = second := by
  constructor
  · intro hsame
    have hvalue := congrArg UInt16.toNat hsame
    rw [toNat_word, toNat_word] at hvalue
    exact UInt8.toNat_inj.mp (by omega)
  · rintro rfl
    rfl

/-! ### Addresses -/

/-- Whether both rules take the same word for a pointer in the zero page: it does not begin at the
end of the page, or the byte behind the page has no bit that the first byte of the page lacks. -/
def Memory.RulesAgreeAt (memory : Memory) (pointer : UInt8) : Prop :=
  pointer ≠ 0xFF ∨ memory.read 0x0100 &&& ~~~memory.read 0x0000 = 0

instance (memory : Memory) (pointer : UInt8) : Decidable (memory.RulesAgreeAt pointer) :=
  inferInstanceAs (Decidable (_ ∨ _))

/-- Within the zero page the next address is the same with and without the wrap at its end. -/
theorem toUInt16_add_one {pointer : UInt8} (hpointer : pointer ≠ 0xFF) :
    (pointer + 1).toUInt16 = pointer.toUInt16 + 1 := by
  have hsmall := pointer.toNat_lt
  have hlast : pointer.toNat ≠ 255 := fun h ↦ hpointer (UInt8.toNat_inj.mp h)
  apply UInt16.toNat_inj.mp
  rw [UInt8.toNat_toUInt16, UInt8.toNat_add, UInt16.toNat_add, UInt8.toNat_toUInt16]
  simp only [UInt8.reduceToNat, UInt16.reduceToNat]
  omega

theorem Mode.effectiveAddress_indirectX_eq_iff (registers : Registers) (memory : Memory) :
    effectiveAddress .legacy registers memory .indirectX =
        effectiveAddress .canonical registers memory .indirectX ↔
      memory.RulesAgreeAt (memory.read registers.pc + registers.x) := by
  simp only [effectiveAddress]
  generalize memory.read registers.pc + registers.x = pointer
  rw [word_inj_high, Memory.RulesAgreeAt]
  by_cases hpointer : pointer = 0xFF
  · subst hpointer
    rw [← or_eq_left_iff]
    exact (or_iff_right (not_not_intro rfl)).symm
  · rw [toUInt16_add_one hpointer, UInt8.or_self]
    exact iff_of_true rfl (.inl hpointer)

/-- The rule does not matter to an instruction that goes by no pointer, or by one that both rules
take for the same word. -/
theorem Instruction.effectiveAddress_legacy {registers : Registers} {memory : Memory}
    {instruction : Instruction} (hindirectY : instruction.mode ≠ some .indirectY)
    (hindirectX : instruction.mode = some .indirectX →
      memory.RulesAgreeAt (memory.read registers.pc + registers.x)) :
    instruction.effectiveAddress .legacy registers memory =
      instruction.effectiveAddress .canonical registers memory := by
  unfold effectiveAddress
  cases hmode : instruction.mode with
  | none => rfl
  | some mode =>
    cases mode with
    | indirectX => exact (Mode.effectiveAddress_indirectX_eq_iff _ _).mpr (hindirectX hmode)
    | indirectY => exact absurd hmode hindirectY
    | immediate | zeroPage | zeroPageX | zeroPageY | absolute | absoluteX | absoluteY => rfl

/-! ### Runs -/

namespace Machine

/-- The machine with a rule for the indirect modes. -/
def withRule (machine : Machine) (rule : IndirectRule) : Machine :=
  { machine with settings := { machine.settings with indirect := rule } }

/-- Whether the rule does not matter to the next instruction: if one is executed, it does not work
on `(indirect),Y`, and if it works on `(indirect,X)`, both rules take its pointer for the same
word. -/
def RuleIsIrrelevant (machine : Machine) : Prop :=
  machine.state = .running →
    modeOf (machine.memory.read machine.registers.pc) ≠ some .indirectY ∧
      (modeOf (machine.memory.read machine.registers.pc) = some .indirectX →
        machine.memory.RulesAgreeAt
          (machine.memory.read (machine.registers.pc + 1) + machine.registers.x))

instance (machine : Machine) : Decidable machine.RuleIsIrrelevant :=
  inferInstanceAs (Decidable (_ → _ ∧ (_ → _)))

section TwoRules

variable {canonical legacy : Machine} (hagree : canonical.AgreeBeyondSettings legacy)
  (hcanonical : canonical.settings.indirect = .canonical)
  (hlegacy : legacy.settings.indirect = .legacy)
include hagree hcanonical hlegacy

/-- Where the rule does not matter the processor makes the same turn under both. -/
theorem run_cycle_of_ruleIsIrrelevant (hirrelevant : canonical.RuleIsIrrelevant)
    (hrunning : canonical.state = .running) :
    legacy.cycle.run legacy.memory = canonical.cycle.run canonical.memory := by
  have hregisters : legacy.fetched.registers = canonical.fetched.registers :=
    congrArg (·.advance 1) hagree.registers
  obtain ⟨hindirectY, hindirectX⟩ := hirrelevant hrunning
  cases hdecode : decode (canonical.memory.read canonical.registers.pc) with
  | none =>
    have hother : decode (legacy.memory.read legacy.registers.pc) = none := by
      rw [hagree.memory, hagree.registers, hdecode]
    rw [run_cycle_of_unsupported hdecode, run_cycle_of_unsupported hother, hregisters,
      hagree.memory, hagree.registers]
  | some instruction =>
    have hother : decode (legacy.memory.read legacy.registers.pc) = some instruction := by
      rw [hagree.memory, hagree.registers, hdecode]
    rw [modeOf, hdecode] at hindirectY hindirectX
    have haddress : legacy.effectiveAddress instruction =
        canonical.effectiveAddress instruction := by
      rw [effectiveAddress, effectiveAddress, hregisters, hagree.memory, hcanonical, hlegacy]
      exact Instruction.effectiveAddress_legacy hindirectY hindirectX
    rw [run_cycle_of_decode hdecode, run_cycle_of_decode hother, haddress, hregisters,
      hagree.memory]

end TwoRules

/-- As long as the rule does not matter both rules leave the same machine but for its settings and
its trace. -/
theorem agree_after_of_ruleIsIrrelevant (machine : Machine) {count : Nat}
    (hirrelevant : ∀ call < count, ((machine.withRule .canonical).after call).RuleIsIrrelevant) :
    ((machine.withRule .canonical).after count).AgreeBeyondSettings
      ((machine.withRule .legacy).after count) := by
  induction count with
  | zero => exact ⟨rfl, rfl, rfl, rfl⟩
  | succ count ih =>
    have hagree := ih fun call hcall ↦ hirrelevant call (Nat.lt_succ_of_lt hcall)
    have hnow := hirrelevant count (Nat.lt_succ_self count)
    exact (hagree.step (run_cycle_of_ruleIsIrrelevant hagree (by simp [withRule])
      (by simp [withRule]) hnow)).2

/-- The two rules agree away from their difference. The operand address of `(indirect,X)` is the
same under both exactly if they take its pointer for the same word. If this is so whenever a run by
the canonical rule comes to that mode, and the run does not come to `(indirect),Y`, then its calls
of `step` have the same outcomes under the legacy rule, and leave the same machines but for their
settings and traces. -/
theorem indirectRules_agree (machine : Machine) :
    ((machine.withRule .legacy).operandAddress (some .indirectX) =
        (machine.withRule .canonical).operandAddress (some .indirectX) ↔
      machine.memory.RulesAgreeAt
        (machine.memory.read machine.registers.pc + machine.registers.x)) ∧
    ∀ count, (∀ call < count, ((machine.withRule .canonical).after call).RuleIsIrrelevant) →
      (∀ call < count, ((machine.withRule .legacy).after call).step.1 =
        ((machine.withRule .canonical).after call).step.1) ∧
      ∀ call ≤ count, ((machine.withRule .canonical).after call).AgreeBeyondSettings
        ((machine.withRule .legacy).after call) := by
  constructor
  · rw [operandAddress_eq, operandAddress_eq, Except.ok.injEq]
    exact Mode.effectiveAddress_indirectX_eq_iff _ _
  · intro count hirrelevant
    have hagree (call : Nat) (hcall : call ≤ count) :=
      machine.agree_after_of_ruleIsIrrelevant fun earlier hearlier ↦
        hirrelevant earlier (Nat.lt_of_lt_of_le hearlier hcall)
    refine ⟨fun call hcall ↦ ?_, hagree⟩
    have hbefore := hagree call (Nat.le_of_lt hcall)
    exact (hbefore.step (run_cycle_of_ruleIsIrrelevant hbefore (by simp [withRule])
      (by simp [withRule]) (hirrelevant call hcall))).1

/-- A program that goes by the pointer at the end of the zero page twice. In between it stores the
byte that it loaded at the start of the page, where the rules differ, and then also behind the page,
where they agree again. -/
theorem indirectRules_agree_of_changed_pointer :
    let machine : Machine :=
      { registers := { x := 0x01, pc := 0x0200 }
        memory :=
          ((((Memory.blank.write 0x0000 0x12).writeWord 0x00FF 0x1034).write 0x1234 0x05).write
            0x0534 0x40).writeBytes 0x0200
              [0xA1, 0xFE, 0x8D, 0x00, 0x00, 0x8D, 0x00, 0x01, 0x01, 0xFE, 0x00] }
    let canonical := machine.withRule .canonical
    let legacy := machine.withRule .legacy
    (∀ call < 5, (canonical.after call).RuleIsIrrelevant) ∧
      ¬(canonical.after 2).memory.RulesAgreeAt 0xFF ∧
      (∀ call < 5, (legacy.after call).step.1 = (canonical.after call).step.1) ∧
      (∀ call ≤ 5, (canonical.after call).AgreeBeyondSettings (legacy.after call)) ∧
      (legacy.after 5).state = .halted ∧ (legacy.after 5).registers.a = 0x45 := by
  intro machine canonical legacy
  have hirrelevant : ∀ call < 5, (canonical.after call).RuleIsIrrelevant := by decide +kernel
  obtain ⟨houtcomes, hagree⟩ := (indirectRules_agree machine).2 5 hirrelevant
  exact ⟨hirrelevant, by decide +kernel, houtcomes, hagree, by decide +kernel, by decide +kernel⟩

end Machine

end Mos6502
