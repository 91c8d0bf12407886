import Mos6502.Instruction
import Mos6502.Memory

/-!
Bus traffic. A `BusProgram` is what an instruction does to memory, written as the bytes it reads
and writes in order, where what it does next may depend on every byte read so far. Memory is
reached in no other way, so the traffic of an instruction is all it can learn or change.

Over a memory, `BusProgram.run` is the result of a program with the memory it leaves, and
`BusProgram.accesses` the list of its accesses. `BusProgram.observe` gives both at once
(`BusProgram.observe_eq`).
-/

set_option autoImplicit false
set_option relaxedAutoImplicit false

namespace Mos6502

/-! ### Accesses -/

/-- Which way a byte passed over the bus. -/
inductive Direction
  | read
  | write
  deriving DecidableEq

/-- What a byte is read or written for. -/
inductive Purpose
  | opcodeFetch
  | operand
  | operandLow
  | operandHigh
  | pointer
  | pointerLow
  | pointerHigh
  | data (operation : Operation)
  | shift
  | store
  deriving DecidableEq

/-- The name of a purpose in a listing of the traffic; the data of every load is named alike. -/
def Purpose.label : Purpose → String
  | .opcodeFetch => "opcode fetch"
  | .operand => "operand"
  | .operandLow => "operand lo"
  | .operandHigh => "operand hi"
  | .pointer => "pointer"
  | .pointerLow => "pointer lo"
  | .pointerHigh => "pointer hi"
  | .data .lda | .data .ldx | .data .ldy => "load"
  | .data operation => operation.mnemonic
  | .shift => "ASL"
  | .store => "store"

/-- One byte that passed over the bus. -/
structure Access where
  direction : Direction
  address : UInt16
  data : UInt8
  purpose : Purpose
  deriving DecidableEq

/-! ### Programs -/

/-- Reads and writes in order, ending with a result. -/
inductive BusProgram (α : Type) : Type
  | done (result : α)
  | read (address : UInt16) (purpose : Purpose) (next : UInt8 → BusProgram α)
  | write (address : UInt16) (data : UInt8) (purpose : Purpose) (next : BusProgram α)

namespace BusProgram

variable {α : Type}

/-- Reads a word, its low byte first. -/
def readWord (address : UInt16) (purpose : Purpose) (next : UInt16 → BusProgram α) :
    BusProgram α :=
  .read address purpose fun low ↦ .read (address + 1) purpose fun high ↦ next (word low high)

/-! ### Meanings -/

/-- The result of a program over a memory, and the memory that it leaves. -/
def run : BusProgram α → Memory → α × Memory
  | .done result, memory => (result, memory)
  | .read address _ next, memory => (next (memory.read address)).run memory
  | .write address data _ next, memory => next.run (memory.write address data)

/-- The accesses of a program over a memory, in order, with all that `run` gives. -/
def observe : BusProgram α → Memory → List Access × α × Memory
  | .done result, memory => ([], result, memory)
  | .read address purpose next, memory =>
      let data := memory.read address
      let (accesses, left) := (next data).observe memory
      (⟨.read, address, data, purpose⟩ :: accesses, left)
  | .write address data purpose next, memory =>
      let (accesses, left) := next.observe (memory.write address data)
      (⟨.write, address, data, purpose⟩ :: accesses, left)

/-- The accesses of a program over a memory, in order. -/
def accesses (program : BusProgram α) (memory : Memory) : List Access :=
  (program.observe memory).1

/-- Observing a program does not change what it does. -/
theorem observe_eq (program : BusProgram α) (memory : Memory) :
    program.observe memory = (program.accesses memory, program.run memory) := by
  refine Prod.ext rfl ?_
  induction program generalizing memory with
  | done result => rfl
  | read address purpose next ih => exact ih (memory.read address) memory
  | write address data purpose next ih => exact ih (memory.write address data)

@[simp] theorem accesses_done (result : α) (memory : Memory) :
    (done result).accesses memory = [] := rfl

@[simp] theorem accesses_read (address : UInt16) (purpose : Purpose)
    (next : UInt8 → BusProgram α) (memory : Memory) :
    (read address purpose next).accesses memory =
      ⟨.read, address, memory.read address, purpose⟩ ::
        (next (memory.read address)).accesses memory := rfl

@[simp] theorem accesses_write (address : UInt16) (data : UInt8) (purpose : Purpose)
    (next : BusProgram α) (memory : Memory) :
    (write address data purpose next).accesses memory =
      ⟨.write, address, data, purpose⟩ :: next.accesses (memory.write address data) := rfl

@[simp] theorem run_readWord (address : UInt16) (purpose : Purpose)
    (next : UInt16 → BusProgram α) (memory : Memory) :
    (readWord address purpose next).run memory = (next (memory.readWord address)).run memory := rfl

end BusProgram

end Mos6502
