import Mos6502.Proofs.DataAccess

/-!
Effective addresses in plain arithmetic. An address is a number below 65536 and a byte one below
256; indexing in the zero page is modulo 256, and everywhere else modulo 65536
(`Mode.addressValue`). The bytes that the rules of the indirect modes read for a pointer are
named one by one, so that the formula shows where the legacy rule leaves the page.

`Mode.toNat_effectiveAddress` says that the address which a mode finds has this value, and
`Machine.finds_address` what asking a machine for it gives and leaves: there is an address exactly
if there is a mode, the operand bytes are read behind the opcode, and nothing is changed.
-/

set_option autoImplicit false
set_option relaxedAutoImplicit false

namespace Mos6502

/-! ### Bytes as numbers -/

/-- The byte at a place, as a number. -/
def Memory.byteAt (memory : Memory) (place : Nat) : Nat :=
  (memory.read (UInt16.ofNat place)).toNat

namespace Memory

variable (memory : Memory)

theorem byteAt_of_toNat {place : Nat} {address : UInt16} (hplace : address.toNat = place) :
    memory.byteAt place = (memory.read address).toNat := by
  rw [← hplace, byteAt, UInt16.ofNat_toNat]

/-- A word is the byte at its address and 256 times the one behind, which may be the first byte of
memory. -/
theorem toNat_readWord (address : UInt16) :
    (memory.readWord address).toNat =
      memory.byteAt address.toNat + 256 * memory.byteAt ((address.toNat + 1) % 65536) := by
  have hnext : (address + 1).toNat = (address.toNat + 1) % 65536 := UInt16.toNat_add _ _
  rw [readWord, toNat_word, memory.byteAt_of_toNat rfl, memory.byteAt_of_toNat hnext]

variable (pointer : UInt8)

theorem byteAt_pointer :
    memory.byteAt pointer.toNat = (memory.read pointer.toUInt16).toNat :=
  memory.byteAt_of_toNat (UInt8.toNat_toUInt16 pointer)

/-- The place behind a pointer in the zero page, with the wrap at the end of the page. -/
theorem byteAt_pointer_wrapped :
    memory.byteAt ((pointer.toNat + 1) % 256) = (memory.read (pointer + 1).toUInt16).toNat :=
  memory.byteAt_of_toNat ((UInt8.toNat_toUInt16 _).trans (UInt8.toNat_add _ _))

/-- The place behind a pointer in the zero page, without that wrap. -/
theorem byteAt_pointer_unwrapped :
    memory.byteAt (pointer.toNat + 1) = (memory.read (pointer.toUInt16 + 1)).toNat := by
  have hsmall : pointer.toNat + 1 < 65536 := Nat.lt_of_le_of_lt pointer.toNat_lt (by decide)
  refine memory.byteAt_of_toNat ?_
  rw [UInt16.toNat_add, UInt8.toNat_toUInt16]
  exact Nat.mod_eq_of_lt hsmall

end Memory

/-! ### The value of an address -/

namespace Mode

/-- The address that a mode finds, as a number. The operand is the byte at the program counter, or
the word that begins there. -/
def addressValue (rule : IndirectRule) (registers : Registers) (memory : Memory)
    (mode : Mode) : Nat :=
  let pc := registers.pc.toNat
  let x := registers.x.toNat
  let y := registers.y.toNat
  let byte := memory.byteAt pc
  let word := memory.byteAt pc + 256 * memory.byteAt ((pc + 1) % 65536)
  match mode, rule with
  | .immediate, _ => pc
  | .zeroPage, _ => byte
  | .zeroPageX, _ => (byte + x) % 256
  | .zeroPageY, _ => (byte + y) % 256
  | .absolute, _ => word
  | .absoluteX, _ => (word + x) % 65536
  | .absoluteY, _ => (word + y) % 65536
  | .indirectX, .canonical =>
      let pointer := (byte + x) % 256
      memory.byteAt pointer + 256 * memory.byteAt ((pointer + 1) % 256)
  | .indirectX, .legacy =>
      let pointer := (byte + x) % 256
      memory.byteAt pointer +
        256 * (memory.byteAt ((pointer + 1) % 256) ||| memory.byteAt (pointer + 1))
  | .indirectY, .canonical =>
      (memory.byteAt byte + 256 * memory.byteAt ((byte + 1) % 256) + y) % 65536
  | .indirectY, .legacy => (word + y) % 65536

/-- The address that a mode finds has the value of the formula. -/
theorem toNat_effectiveAddress (rule : IndirectRule) (registers : Registers) (memory : Memory)
    (mode : Mode) :
    (mode.effectiveAddress rule registers memory).toNat =
      mode.addressValue rule registers memory := by
  have hbyte : memory.byteAt registers.pc.toNat = (memory.read registers.pc).toNat :=
    memory.byteAt_of_toNat rfl
  have hpointer : (memory.byteAt registers.pc.toNat + registers.x.toNat) % 256 =
      (memory.read registers.pc + registers.x).toNat := by
    rw [hbyte, UInt8.toNat_add]
  cases mode with
  | immediate => rfl
  | zeroPage => rw [effectiveAddress, addressValue, hbyte, UInt8.toNat_toUInt16]
  | zeroPageX => rw [effectiveAddress, addressValue, hpointer, UInt8.toNat_toUInt16]
  | zeroPageY =>
    rw [effectiveAddress, addressValue, hbyte, UInt8.toNat_toUInt16, UInt8.toNat_add]
  | absolute => exact memory.toNat_readWord registers.pc
  | absoluteX =>
    rw [effectiveAddress, addressValue, UInt16.toNat_add, Memory.toNat_readWord,
      UInt8.toNat_toUInt16]
  | absoluteY =>
    rw [effectiveAddress, addressValue, UInt16.toNat_add, Memory.toNat_readWord,
      UInt8.toNat_toUInt16]
  | indirectX =>
    cases rule with
    | canonical =>
      rw [effectiveAddress, addressValue, hpointer, toNat_word, Memory.byteAt_pointer,
        Memory.byteAt_pointer_wrapped]
    | legacy =>
      rw [effectiveAddress, addressValue, hpointer, toNat_word, UInt8.toNat_or,
        Memory.byteAt_pointer, Memory.byteAt_pointer_wrapped, Memory.byteAt_pointer_unwrapped]
  | indirectY =>
    cases rule with
    | canonical =>
      rw [effectiveAddress, addressValue, hbyte, UInt16.toNat_add, toNat_word,
        UInt8.toNat_toUInt16, Memory.byteAt_pointer, Memory.byteAt_pointer_wrapped]
    | legacy =>
      rw [effectiveAddress, addressValue, UInt16.toNat_add, Memory.toNat_readWord,
        UInt8.toNat_toUInt16]

/-! ### The reads on the way -/

end Mode

/-- Whether a byte is read as a part of an instruction behind its opcode. -/
def Purpose.isOperand : Purpose → Bool
  | .operand | .operandLow | .operandHigh => true
  | .opcodeFetch | .pointer | .pointerLow | .pointerHigh | .data _ | .shift | .store => false

/-- Whether an access reads the byte that a memory holds, and reads it at the program counter or
the address behind if it is an operand byte. -/
def Access.ReadsOperandAt (pc : UInt16) (memory : Memory) (access : Access) : Prop :=
  access.direction = .read ∧ access.data = memory.read access.address ∧
    (access.purpose.isOperand = true → access.address = pc ∨ access.address = pc + 1)

theorem Mode.readsOperandAt_of_mem_resolution (rule : IndirectRule) (registers : Registers)
    (memory : Memory) (mode : Mode) :
    ∀ access ∈ mode.resolution rule registers memory,
      access.ReadsOperandAt registers.pc memory := by
  cases mode <;> cases rule <;>
    simp [resolution, resolve, BusProgram.readWord, Access.ReadsOperandAt, Purpose.isOperand]

namespace Machine

/-- What asking a machine for the operand address of a mode gives and leaves. -/
structure FindsAddress (machine : Machine) (mode : Option Mode) : Prop where
  /-- Nothing but the traffic in front of the next opcode is changed. -/
  unchanged : (machine.resolveOperand mode).2 =
    { machine with pending := (machine.resolveOperand mode).2.pending }
  /-- There is no address exactly if there is no mode. -/
  refused : (machine.resolveOperand mode).1 = .error .impliedMode ↔ mode = none
  /-- A mode has an address, with the value of the formula. -/
  found : ∀ given, mode = some given → ∃ address,
    (machine.resolveOperand mode).1 = .ok address ∧
      address.toNat = given.addressValue machine.settings.indirect machine.registers machine.memory
  /-- A trace is told of the reads that find the address. -/
  traffic : ∀ given, mode = some given →
    (machine.resolveOperand mode).2.pending =
      if machine.settings.trace then
        machine.pending ++
          (given.resolution machine.settings.indirect machine.registers machine.memory).map
            (Event.mk machine.steps)
      else machine.pending
  /-- These are reads, and of operand bytes at the program counter and behind it alone. -/
  reads : ∀ given, mode = some given →
    ∀ access ∈ given.resolution machine.settings.indirect machine.registers machine.memory,
      access.ReadsOperandAt machine.registers.pc machine.memory

/-- Asking for an operand address changes nothing, and gives the address in every mode. -/
theorem finds_address (machine : Machine) (mode : Option Mode) : machine.FindsAddress mode := by
  cases mode with
  | none =>
    constructor
    case unchanged => rfl
    case refused => exact iff_of_true rfl rfl
    case found | traffic | reads =>
      intro given hgiven
      cases hgiven
  | some mode =>
    have hresult : (machine.resolveOperand (some mode)).1 =
        .ok (mode.effectiveAddress machine.settings.indirect machine.registers machine.memory) :=
      machine.operandAddress_eq mode
    have hmemory : (machine.resolveOperand (some mode)).2.memory = machine.memory := by
      rw [resolveOperand, BusProgram.observe_eq, Mode.run_resolve]
      rfl
    constructor
    case unchanged =>
      conv => rhs; rw [← hmemory]
      rfl
    case refused =>
      rw [hresult]
      exact iff_of_false (fun hrefused ↦ by cases hrefused) (Option.some_ne_none mode)
    case found =>
      rintro given ⟨⟩
      exact ⟨_, hresult, mode.toNat_effectiveAddress _ _ _⟩
    case traffic =>
      rintro given ⟨⟩
      rfl
    case reads =>
      rintro given ⟨⟩
      exact mode.readsOperandAt_of_mem_resolution _ _ _

/-- At the end of the zero page the legacy rule puts the byte behind the page over the first one. -/
example :
    let memory := ((Memory.blank.write 0xFFFF 0xF0).writeWord 0x00FF 0x8034).write 0x0000 0x12
    let registers : Registers := { x := 0x0F, pc := 0xFFFF }
    (Mode.indirectX.addressValue .canonical registers memory,
      Mode.indirectX.addressValue .legacy registers memory) = (0x1234, 0x9234) := by
  decide +kernel

end Machine

end Mos6502
