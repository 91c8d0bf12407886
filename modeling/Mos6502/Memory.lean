import Mos6502.Hex
import Mos6502.Memory.Tree
import Mos6502.Word

/-!
The address space: 65536 bytes, read and written one at a time.

`Memory.read_write` and `Memory.ext_read` say all there is to know about a memory. Words lie low
byte first and wrap around at the top. `Memory.load` copies an image into place, and refuses one
that would run past the last address without writing anything (`Memory.load_eq_ok_iff`).
-/

set_option autoImplicit false
set_option relaxedAutoImplicit false

namespace Mos6502

/-- The contents of all 65536 addresses. -/
structure Memory where
  tree : ByteTree 16

namespace Memory

/-- The address where programs go unless they say otherwise. -/
def programOrigin : UInt16 := 0x8000

/-- The address of the word that a reset loads into the program counter. -/
def resetVector : UInt16 := 0xFFFC

/-- The memory that is zero everywhere. -/
def blank : Memory := ⟨ByteTree.replicate 0 16⟩

/-- The byte at an address. -/
def read (memory : Memory) (address : UInt16) : UInt8 :=
  memory.tree.read address

/-- The memory with another byte at an address. -/
def write (memory : Memory) (address : UInt16) (byte : UInt8) : Memory :=
  ⟨memory.tree.write address byte⟩

/-- The memory with the given byte at each address. -/
def ofFn (content : UInt16 → UInt8) : Memory :=
  ⟨ByteTree.ofFn (fun index ↦ content (UInt16.ofNat index)) 16 0⟩

/-- All bytes in ascending order of their addresses. -/
def toList (memory : Memory) : List UInt8 := memory.tree.toList

/-! ### Single bytes -/

/-- A write changes the read of its own address, and no other. -/
theorem read_write (memory : Memory) (address other : UInt16) (byte : UInt8) :
    (memory.write address byte).read other =
      if address = other then byte else memory.read other := by
  have place (index : UInt16) : ByteTree.place 16 index = index.toNat := by
    simp [ByteTree.place]
  simp only [read, write, ByteTree.read_write (Nat.le_refl 16), place, UInt16.toNat_inj]

theorem read_blank (address : UInt16) : blank.read address = 0 :=
  ByteTree.read_replicate 0 16 address

theorem read_ofFn (content : UInt16 → UInt8) (address : UInt16) :
    (ofFn content).read address = content address := by
  simp [ofFn, read, ByteTree.read_ofFn, ByteTree.place]

/-- A memory is determined by its reads. -/
theorem ext_read {first second : Memory}
    (agree : ∀ address, first.read address = second.read address) : first = second := by
  cases first with
  | mk firstTree =>
    cases second with
    | mk secondTree => exact congrArg mk (ByteTree.ext_read (Nat.le_refl 16) _ _ agree)

/-! ### Words and images -/

/-- The word whose low byte is at an address and whose high byte is at the next one. -/
def readWord (memory : Memory) (address : UInt16) : UInt16 :=
  word (memory.read address) (memory.read (address + 1))

/-- Writes a word at an address and the next one, its low byte first. -/
def writeWord (memory : Memory) (address value : UInt16) : Memory :=
  (memory.write address (lowByte value)).write (address + 1) (highByte value)

/-- Writes bytes one after the other from an address on, wrapping around at the top. -/
def writeBytes (memory : Memory) (address : UInt16) : List UInt8 → Memory
  | [] => memory
  | byte :: rest => (memory.write address byte).writeBytes (address + 1) rest

/-- The bytes from an address on, wrapping around at the top. -/
def readBytes (memory : Memory) (address : UInt16) (count : Nat) : List UInt8 :=
  (List.range count).map fun offset ↦ memory.read (address + UInt16.ofNat offset)

/-- An image of `size` bytes would run past the last address if it began at `origin`. -/
structure LoadError where
  size : Nat
  origin : UInt16
  deriving DecidableEq

/-- The wording of a load error, with a line feed. -/
def LoadError.message (error : LoadError) : Text :=
  "[bus] program of ".toList ++ decimal error.size ++ " bytes does not fit at ".toList ++
    Hex.word error.origin ++ ['\n']

/-- Copies an image to its place, if it fits below the end of the address space. -/
def load (memory : Memory) (origin : UInt16) (bytes : List UInt8) : Except LoadError Memory :=
  if origin.toNat + bytes.length ≤ 65536 then .ok (memory.writeBytes origin bytes)
  else .error ⟨bytes.length, origin⟩

/-- Loading succeeds exactly if the image ends below the end of the address space. -/
theorem load_eq_ok_iff (memory loaded : Memory) (origin : UInt16) (bytes : List UInt8) :
    memory.load origin bytes = .ok loaded ↔
      origin.toNat + bytes.length ≤ 65536 ∧ memory.writeBytes origin bytes = loaded := by
  unfold load
  split
  · next fits => simp [fits]
  · next large => simp [large]

theorem readWord_writeWord (memory : Memory) (address value : UInt16) :
    (memory.writeWord address value).readWord address = value := by
  have apart : address + 1 ≠ address := by
    intro equal
    have := congrArg UInt16.toNat equal
    have small := address.toNat_lt
    simp only [UInt16.toNat_add, UInt16.reduceToNat] at this
    omega
  simp [writeWord, readWord, read_write, apart, word_lowByte_highByte]

end Memory

end Mos6502
