import Mos6502.Machine.Run

/-!
Programs in the machine. Loading a program copies its bytes to its origin and then points the
reset vector there, so that a reset starts it. A program that does not fit changes nothing.
-/

set_option autoImplicit false
set_option relaxedAutoImplicit false

namespace Mos6502

/-- The program that the monitor offers for a try: additions, shifts, transfers and a subtraction
on one byte of memory. -/
def demoProgram : List UInt8 :=
  [0xA9, 0x81,        -- LDA #$81
   0x8D, 0x00, 0x02,  -- STA $0200
   0x6D, 0x00, 0x02,  -- ADC $0200
   0xAA,              -- TAX
   0x0A,              -- ASL A
   0x0E, 0x00, 0x02,  -- ASL $0200
   0x0E, 0x00, 0x02,  -- ASL $0200
   0x38,              -- SEC
   0xED, 0x00, 0x02,  -- SBC $0200
   0x8A,              -- TXA
   0xAE, 0x00, 0x02,  -- LDX $0200
   0x00]              -- BRK

namespace Machine

/-- Copies a program to its origin and points the reset vector at it. -/
def loadProgram (machine : Machine) (bytes : List UInt8)
    (origin : UInt16 := Memory.programOrigin) : Except Memory.LoadError Machine := do
  let memory ← machine.memory.load origin bytes
  return { machine with memory := memory.writeWord Memory.resetVector origin }

/-- Loads a program to the usual origin, resets the machine and runs it; the run has the result of
`Machine.run`. -/
def loadAndRun (budget : Nat) (machine : Machine) (bytes : List UInt8) :
    Except Memory.LoadError (Option (Except Fault UInt64 × Machine)) := do
  let loaded ← machine.loadProgram bytes
  return loaded.reset.run budget

end Machine

end Mos6502
