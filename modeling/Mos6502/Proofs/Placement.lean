import Mos6502.Machine.Program

/-!
Bytes in their places. `Memory.read_writeBytes` gives every byte of a memory after an image was
copied into it, and `Memory.read_writeWord` after a word was written.

`Memory.Holds` says that bytes lie one after the other from an address on. It holds of an image
that was copied there (`Memory.holds_writeBytes`), and survives a write outside the image
(`Memory.Holds.write`).
-/

set_option autoImplicit false
set_option relaxedAutoImplicit false

namespace Mos6502

/-- An address does not wrap around as long as it stays below the end of memory. -/
theorem toNat_add_ofNat (address : UInt16) (count : Nat)
    (hfits : address.toNat + count < 65536) :
    (address + UInt16.ofNat count).toNat = address.toNat + count := by
  rw [UInt16.toNat_add, UInt16.toNat_ofNat']
  omega

namespace Memory

/-! ### Bytes in a row -/

@[simp] theorem readBytes_zero (memory : Memory) (address : UInt16) :
    memory.readBytes address 0 = [] := rfl

theorem readBytes_succ (memory : Memory) (address : UInt16) (count : Nat) :
    memory.readBytes address (count + 1) =
      memory.read address :: memory.readBytes (address + 1) count := by
  have hshift (offset : Nat) :
      address + UInt16.ofNat (offset + 1) = address + 1 + UInt16.ofNat offset := by
    rw [UInt16.ofNat_add, UInt16.add_comm (UInt16.ofNat offset), ← UInt16.add_assoc]
    rfl
  rw [readBytes, List.range_succ_eq_map, List.map_cons, List.map_map, List.cons.injEq]
  refine ⟨by simp, List.map_congr_left fun offset _ ↦ ?_⟩
  exact congrArg memory.read (hshift offset)

/-- Bytes in a row are the first of them and those behind. -/
theorem readBytes_add (memory : Memory) (address : UInt16) (first second : Nat) :
    memory.readBytes address (first + second) =
      memory.readBytes address first ++
        memory.readBytes (address + UInt16.ofNat first) second := by
  unfold readBytes
  rw [List.range_add, List.map_append, List.map_map, List.append_cancel_left_eq]
  refine List.map_congr_left fun offset _ ↦ congrArg memory.read ?_
  rw [UInt16.ofNat_add, UInt16.add_assoc]

@[simp] theorem length_readBytes (memory : Memory) (address : UInt16) (count : Nat) :
    (memory.readBytes address count).length = count := by
  simp [readBytes]

theorem getElem?_readBytes {memory : Memory} {address : UInt16} {count index : Nat}
    (hindex : index < count) :
    (memory.readBytes address count)[index]? =
      some (memory.read (address + UInt16.ofNat index)) := by
  rw [readBytes, List.getElem?_map, List.getElem?_range hindex, Option.map_some]

/-- Bytes in a row depend on the reads in their range alone. -/
theorem readBytes_congr {first second : Memory} {address : UInt16} {count : Nat}
    (hfits : address.toNat + count ≤ 65536)
    (hsame : ∀ place : UInt16, address.toNat ≤ place.toNat → place.toNat < address.toNat + count →
      first.read place = second.read place) :
    first.readBytes address count = second.readBytes address count := by
  refine List.map_congr_left fun offset hoffset ↦ ?_
  rw [List.mem_range] at hoffset
  have hplace : (address + UInt16.ofNat offset).toNat = address.toNat + offset :=
    toNat_add_ofNat address offset (by omega)
  exact hsame _ (by omega) (by omega)

/-! ### Images -/

/-- An image that fits below the end of memory fills its range and leaves all other bytes. -/
theorem read_writeBytes (memory : Memory) {origin : UInt16} {bytes : List UInt8}
    (hfits : origin.toNat + bytes.length ≤ 65536) (place : UInt16) :
    (memory.writeBytes origin bytes).read place =
      if origin.toNat ≤ place.toNat then
        (bytes[place.toNat - origin.toNat]?).getD (memory.read place)
      else memory.read place := by
  induction bytes generalizing memory origin with
  | nil => simp [writeBytes]
  | cons byte rest ih =>
    rw [List.length_cons] at hfits
    have hnext : (origin + 1).toNat = (origin.toNat + 1) % 65536 := by simp [UInt16.toNat_add]
    rw [writeBytes, ih _ (by omega), read_write]
    rcases Nat.lt_trichotomy place.toNat origin.toNat with hbelow | hhere | habove
    · have hother : origin ≠ place := fun h ↦ by simp [h] at hbelow
      rw [if_neg (by omega : ¬origin.toNat ≤ place.toNat), if_neg hother]
      split
      · rw [List.getElem?_eq_none (by omega), Option.getD_none]
      · rfl
    · have hsame : origin = place := UInt16.toNat_inj.mp hhere.symm
      rw [if_pos (Nat.le_of_eq hhere.symm), if_pos hsame, hhere, Nat.sub_self,
        List.getElem?_cons_zero, Option.getD_some]
      split
      · rw [List.getElem?_eq_none (by omega), Option.getD_none]
      · rfl
    · have hother : origin ≠ place := fun h ↦ by simp [h] at habove
      have hplace : place.toNat - origin.toNat = place.toNat - (origin + 1).toNat + 1 := by
        have := place.toNat_lt
        omega
      rw [if_neg hother, if_pos (by omega : (origin + 1).toNat ≤ place.toNat),
        if_pos (Nat.le_of_lt habove), hplace, List.getElem?_cons_succ]

/-- A word fills its two bytes and leaves all others. -/
theorem read_writeWord (memory : Memory) (address value place : UInt16) :
    (memory.writeWord address value).read place =
      if place = address + 1 then highByte value
      else if place = address then lowByte value
      else memory.read place := by
  rw [writeWord, read_write, read_write]
  simp only [eq_comm]

/-! ### Bytes that lie somewhere -/

/-- Whether bytes lie one after the other from an address on. -/
def Holds (memory : Memory) (address : UInt16) (bytes : List UInt8) : Prop :=
  memory.readBytes address bytes.length = bytes

theorem holds_cons_iff {memory : Memory} {address : UInt16} {byte : UInt8} {rest : List UInt8} :
    memory.Holds address (byte :: rest) ↔
      memory.read address = byte ∧ memory.Holds (address + 1) rest := by
  rw [Holds, List.length_cons, readBytes_succ, List.cons.injEq, Holds]

theorem holds_append_iff {memory : Memory} {address : UInt16} {first second : List UInt8} :
    memory.Holds address (first ++ second) ↔
      memory.Holds address first ∧ memory.Holds (address + UInt16.ofNat first.length) second := by
  induction first generalizing address with
  | nil => simp [Holds]
  | cons byte rest ih =>
    have hnext : address + 1 + UInt16.ofNat rest.length =
        address + UInt16.ofNat (byte :: rest).length := by
      rw [List.length_cons, Nat.add_comm, UInt16.ofNat_add, ← UInt16.add_assoc]
      rfl
    rw [List.cons_append, holds_cons_iff, holds_cons_iff, ih, hnext, and_assoc]

theorem Holds.congr {first second : Memory} {address : UInt16} {bytes : List UInt8}
    (hholds : first.Holds address bytes) (hfits : address.toNat + bytes.length ≤ 65536)
    (hsame : ∀ place : UInt16, address.toNat ≤ place.toNat →
      place.toNat < address.toNat + bytes.length → second.read place = first.read place) :
    second.Holds address bytes :=
  (readBytes_congr hfits hsame).trans hholds

/-- Bytes stay in place when a byte outside of them is written. -/
theorem Holds.write {memory : Memory} {address : UInt16} {bytes : List UInt8}
    (hholds : memory.Holds address bytes) (hfits : address.toNat + bytes.length ≤ 65536)
    {place : UInt16}
    (houtside : place.toNat < address.toNat ∨ address.toNat + bytes.length ≤ place.toNat)
    (byte : UInt8) : (memory.write place byte).Holds address bytes := by
  refine hholds.congr hfits fun other hfrom hto ↦ ?_
  rw [read_write, if_neg]
  rintro rfl
  omega

/-- A byte in the middle is exchanged by a write, and the others stay in place. -/
theorem Holds.overwrite {memory : Memory} {address : UInt16} (before : List UInt8) {byte : UInt8}
    {rest : List UInt8} (hholds : memory.Holds address (before ++ byte :: rest))
    (hfits : address.toNat + (before ++ byte :: rest).length < 65536) (other : UInt8) :
    (memory.write (address + UInt16.ofNat before.length) other).Holds address
      (before ++ other :: rest) := by
  rw [List.length_append, List.length_cons] at hfits
  have hplace : (address + UInt16.ofNat before.length).toNat = address.toNat + before.length :=
    toNat_add_ofNat address before.length (by omega)
  have hnext : (address + UInt16.ofNat before.length + 1).toNat =
      address.toNat + before.length + 1 := by
    rw [← hplace]
    exact toNat_add_ofNat _ 1 (by omega)
  rw [holds_append_iff, holds_cons_iff] at hholds ⊢
  obtain ⟨hbefore, -, hrest⟩ := hholds
  refine ⟨hbefore.write (by omega) (.inr (by omega)) other, ?_,
    hrest.write (by omega) (.inl (by omega)) other⟩
  rw [read_write, if_pos rfl]

/-- An image lies where it was copied to. -/
theorem holds_writeBytes (memory : Memory) {origin : UInt16} {bytes : List UInt8}
    (hfits : origin.toNat + bytes.length ≤ 65536) :
    (memory.writeBytes origin bytes).Holds origin bytes := by
  refine List.ext_getElem (by simp) fun index hindex hbound ↦ ?_
  have hplace : (origin + UInt16.ofNat index).toNat = origin.toNat + index :=
    toNat_add_ofNat origin index (by omega)
  simp only [readBytes, List.getElem_map, List.getElem_range]
  rw [read_writeBytes memory hfits, hplace, if_pos (by omega), Nat.add_sub_cancel_left,
    List.getElem?_eq_getElem hbound, Option.getD_some]

end Memory

/-! ### Programs -/

namespace Machine

/-- The machine with a program in its place and the reset vector pointing there. -/
def withProgram (machine : Machine) (bytes : List UInt8) (origin : UInt16) : Machine :=
  { machine with
    memory := (machine.memory.writeBytes origin bytes).writeWord Memory.resetVector origin }

/-- A program that fits below the end of memory is loaded. -/
theorem loadProgram_eq (machine : Machine) {bytes : List UInt8} {origin : UInt16}
    (hfits : origin.toNat + bytes.length ≤ 65536) :
    machine.loadProgram bytes origin = .ok (machine.withProgram bytes origin) := by
  rw [loadProgram, (Memory.load_eq_ok_iff _ _ _ _).mpr ⟨hfits, rfl⟩]
  rfl

/-- A program that would run past the last address is refused. -/
theorem loadProgram_eq_error (machine : Machine) {bytes : List UInt8} {origin : UInt16}
    (hlarge : ¬origin.toNat + bytes.length ≤ 65536) :
    machine.loadProgram bytes origin = .error ⟨bytes.length, origin⟩ := by
  rw [loadProgram, Memory.load, if_neg hlarge]
  rfl

/-- The reset vector is written last, over what the program puts there. -/
theorem read_withProgram (machine : Machine) {bytes : List UInt8} {origin : UInt16}
    (hfits : origin.toNat + bytes.length ≤ 65536) (place : UInt16) :
    (machine.withProgram bytes origin).memory.read place =
      if place = 0xFFFD then highByte origin
      else if place = 0xFFFC then lowByte origin
      else if origin.toNat ≤ place.toNat then
        (bytes[place.toNat - origin.toNat]?).getD (machine.memory.read place)
      else machine.memory.read place := by
  rw [← Memory.read_writeBytes machine.memory hfits]
  exact Memory.read_writeWord _ Memory.resetVector origin place

/-- A reset starts the program that was loaded last. -/
theorem pc_reset_withProgram (machine : Machine) (bytes : List UInt8) (origin : UInt16) :
    (machine.withProgram bytes origin).reset.registers.pc = origin :=
  Memory.readWord_writeWord _ _ _

/-- A program that ends in front of the reset vector lies at its origin after it was loaded. -/
theorem holds_withProgram (machine : Machine) {bytes : List UInt8} {origin : UInt16}
    (hbelow : origin.toNat + bytes.length ≤ 0xFFFC) :
    (machine.withProgram bytes origin).memory.Holds origin bytes := by
  have hholds : (machine.memory.writeBytes origin bytes).Holds origin bytes :=
    machine.memory.holds_writeBytes (by omega)
  have hlow : origin.toNat + bytes.length ≤ Memory.resetVector.toNat := hbelow
  have hhigh : origin.toNat + bytes.length ≤ (Memory.resetVector + 1).toNat :=
    Nat.le_trans hbelow (by decide)
  exact (hholds.write (by omega) (.inr hlow) _).write (by omega) (.inr hhigh) _

end Machine

end Mos6502
