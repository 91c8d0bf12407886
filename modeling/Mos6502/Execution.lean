import Mos6502.Addressing
import Mos6502.Instruction.Decode

/-!
What instructions do. The operations, transfers and other actions are functions on the registers;
`Instruction.execute` surrounds them with the accesses that an instruction makes.

`instructionCycle` is one turn of the processor: fetch an opcode, decode it, execute. A break
halts. An opcode that stands for no instruction is a fault, and changes nothing but the program
counter.
-/

set_option autoImplicit false
set_option relaxedAutoImplicit false

namespace Mos6502

/-! ### Effects on registers -/

/-- What becomes of the registers when an operation gets its operand byte. Subtraction adds the
complement. -/
def Operation.apply (registers : Registers) (operand : UInt8) : Operation → Registers
  | .adc => registers.addWithCarry operand
  | .sbc => registers.addWithCarry (~~~operand)
  | .and => registers.setResult .a (registers.a &&& operand)
  | .ora => registers.setResult .a (registers.a ||| operand)
  | .eor => registers.setResult .a (registers.a ^^^ operand)
  | .lda => registers.setResult .a operand
  | .ldx => registers.setResult .x operand
  | .ldy => registers.setResult .y operand

/-- The register that a store writes. -/
def Store.source : Store → Register
  | .sta => .a
  | .stx => .x
  | .sty => .y

/-- The register that a transfer reads. -/
def Transfer.source : Transfer → Register
  | .tax | .tay => .a
  | .txa | .txs => .x
  | .tya => .y
  | .tsx => .sp

/-- A transfer copies its source. All of them set flags but the one into the stack pointer. -/
def Transfer.apply (registers : Registers) (transfer : Transfer) : Registers :=
  let byte := registers.get transfer.source
  match transfer with
  | .txa | .tya => registers.setResult .a byte
  | .tax | .tsx => registers.setResult .x byte
  | .tay => registers.setResult .y byte
  | .txs => registers.set .sp byte

/-- The flags after a byte was shifted left; the carry takes the bit that falls out. -/
def Status.withShift (status : Status) (shifted : UInt8) : Status :=
  (status.withResult (shifted <<< 1)).withCarry (Status.isNegative shifted)

/-- What becomes of the registers through an action. -/
def Action.apply (registers : Registers) : Action → Registers
  | .asl =>
      { registers with
        a := registers.a <<< 1
        status := registers.status.withShift registers.a }
  | .transfer move => move.apply registers
  | .sec => { registers with status := { registers.status with carry := true } }
  | .sed => { registers with status := { registers.status with decimalMode := true } }
  | .sei => { registers with status := { registers.status with interruptDisable := true } }
  | .nop => registers

/-! ### Execution -/

/-- Executes an instruction whose opcode has been fetched, and goes on with the registers that it
leaves. The program counter stands at the first operand byte, and stays there. -/
def Instruction.execute {α : Type} (rule : IndirectRule) (registers : Registers)
    (instruction : Instruction) (next : Registers → BusProgram α) : BusProgram α :=
  match instruction with
  | .operate operation mode =>
      mode.resolve rule registers fun address ↦
        .read address (.data operation) fun operand ↦ next (operation.apply registers operand)
  | .store kind mode =>
      mode.resolve rule registers fun address ↦
        .write address (registers.get kind.source) .store (next registers)
  | .shift mode =>
      mode.resolve rule registers fun address ↦
        .read address .shift fun operand ↦
          .write address (operand <<< 1) .shift
            (next { registers with status := registers.status.withShift operand })
  | .act action => next (action.apply registers)
  | .brk => next { registers with status := { registers.status with breakMark := true } }

/-- An opcode that stands for no instruction, and where it was fetched. -/
structure Fault where
  opcode : UInt8
  address : UInt16
  deriving DecidableEq

/-- The wording of a fault, in upper-case digits. -/
def Fault.message (fault : Fault) : Text :=
  "unsupported opcode ".toList ++ Hex.upperCase (Hex.byte fault.opcode) ++ " at ".toList ++
    Hex.upperCase (Hex.word fault.address)

/-- How a turn of the processor ends. -/
inductive Outcome
  | completed
  | halted
  | unsupported (fault : Fault)
  deriving DecidableEq

/-- A break halts, and every other instruction completes. -/
def Instruction.outcome : Instruction → Outcome
  | .brk => .halted
  | _ => .completed

/-- Fetches the opcode at the program counter and executes its instruction. Afterwards the program
counter stands behind the whole instruction. -/
def instructionCycle (rule : IndirectRule) (registers : Registers) :
    BusProgram (Outcome × Registers) :=
  .read registers.pc .opcodeFetch fun opcode ↦
    match decode opcode with
    | none => .done (.unsupported ⟨opcode, registers.pc⟩, registers.advance 1)
    | some instruction =>
        instruction.execute rule (registers.advance 1) fun executed ↦
          .done (instruction.outcome, executed.advance instruction.operandWidth)

end Mos6502
