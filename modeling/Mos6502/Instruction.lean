/-!
The instructions of the processor, sorted by what they do on the bus: instructions that read one
operand byte, stores, the shift of a byte in memory, instructions that stay inside the processor,
and the break that halts it.

An instruction that works on memory has an addressing mode, and `Mode.operandWidth` says how many
bytes after the opcode belong to it. The instructions that stay inside have no mode
(`Instruction.mode`), so their width is zero.
-/

set_option autoImplicit false
set_option relaxedAutoImplicit false

namespace Mos6502

/-! ### Addressing modes -/

/-- The ways in which an instruction names the byte it works on. -/
inductive Mode
  | immediate
  | zeroPage
  | zeroPageX
  | zeroPageY
  | absolute
  | absoluteX
  | absoluteY
  | indirectX
  | indirectY
  deriving DecidableEq

namespace Mode

/-- All addressing modes. -/
def all : List Mode :=
  [.immediate, .zeroPage, .zeroPageX, .zeroPageY, .absolute, .absoluteX, .absoluteY, .indirectX,
    .indirectY]

theorem mem_all (mode : Mode) : mode ∈ all := by cases mode <;> decide

/-- The number of operand bytes that follow the opcode. -/
def operandWidth : Mode → Nat
  | .absolute | .absoluteX | .absoluteY => 2
  | _ => 1

/-- The usual name of a mode. -/
def name : Mode → String
  | .immediate => "immediate"
  | .zeroPage => "zero page"
  | .zeroPageX => "zero page,X"
  | .zeroPageY => "zero page,Y"
  | .absolute => "absolute"
  | .absoluteX => "absolute,X"
  | .absoluteY => "absolute,Y"
  | .indirectX => "(indirect,X)"
  | .indirectY => "(indirect),Y"

/-- The name of a mode, or of its absence. -/
def nameOf : Option Mode → String
  | none => "implied"
  | some mode => mode.name

/-- The number of operand bytes, which is zero where there is no mode. -/
def widthOf : Option Mode → Nat
  | none => 0
  | some mode => mode.operandWidth

end Mode

/-! ### Instructions -/

/-- What is done with an operand byte that was read. -/
inductive Operation
  | adc
  | sbc
  | and
  | ora
  | eor
  | lda
  | ldx
  | ldy
  deriving DecidableEq

/-- The stores, one for each register that can be stored. -/
inductive Store
  | sta
  | stx
  | sty
  deriving DecidableEq

/-- The moves from one register to another. -/
inductive Transfer
  | tax
  | tay
  | tsx
  | txa
  | txs
  | tya
  deriving DecidableEq

/-- What is done without a data access: a shift of the accumulator, a transfer, a flag that is
set, or nothing. -/
inductive Action
  | asl
  | transfer (move : Transfer)
  | sec
  | sed
  | sei
  | nop
  deriving DecidableEq

/-- An instruction without the values of its operand bytes. -/
inductive Instruction
  | operate (operation : Operation) (mode : Mode)
  | store (kind : Store) (mode : Mode)
  | shift (mode : Mode)
  | act (action : Action)
  | brk
  deriving DecidableEq

/-- The name of an operation in assembly language. -/
def Operation.mnemonic : Operation → String
  | .adc => "ADC"
  | .sbc => "SBC"
  | .and => "AND"
  | .ora => "ORA"
  | .eor => "EOR"
  | .lda => "LDA"
  | .ldx => "LDX"
  | .ldy => "LDY"

/-- The name of a store in assembly language. -/
def Store.mnemonic : Store → String
  | .sta => "STA"
  | .stx => "STX"
  | .sty => "STY"

/-- The name of a transfer in assembly language. -/
def Transfer.mnemonic : Transfer → String
  | .tax => "TAX"
  | .tay => "TAY"
  | .tsx => "TSX"
  | .txa => "TXA"
  | .txs => "TXS"
  | .tya => "TYA"

/-- The name of an action in assembly language. -/
def Action.mnemonic : Action → String
  | .asl => "ASL"
  | .transfer move => move.mnemonic
  | .sec => "SEC"
  | .sed => "SED"
  | .sei => "SEI"
  | .nop => "NOP"

namespace Instruction

/-- The name of an instruction in assembly language. -/
def mnemonic : Instruction → String
  | .operate operation _ => operation.mnemonic
  | .store kind _ => kind.mnemonic
  | .shift _ => "ASL"
  | .act action => action.mnemonic
  | .brk => "BRK"

/-- The addressing mode, if the instruction has a data access. -/
def mode : Instruction → Option Mode
  | .operate _ mode | .store _ mode | .shift mode => some mode
  | .act _ | .brk => none

/-- The number of operand bytes that follow the opcode. -/
def operandWidth (instruction : Instruction) : Nat := Mode.widthOf instruction.mode

/-- The number of bytes of the whole instruction. -/
def length (instruction : Instruction) : Nat := 1 + instruction.operandWidth

end Instruction

end Mos6502
