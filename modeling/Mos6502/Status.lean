/-!
The processor status: seven flags and one reserved bit. Packed into a byte they are, from the
highest bit down, negative, overflow, reserved, break, decimal, interrupt disable, zero, carry.

The reserved bit always packs as one (`Status.pack`), and unpacking sets it
(`Status.unpack_pack`).
-/

set_option autoImplicit false
set_option relaxedAutoImplicit false

namespace Mos6502

/-- The flags, as they stand when power comes on. -/
structure Status where
  negative : Bool := false
  overflow : Bool := false
  reserved : Bool := true
  breakMark : Bool := false
  decimalMode : Bool := false
  interruptDisable : Bool := true
  zero : Bool := false
  carry : Bool := false
  deriving DecidableEq

namespace Status

/-- A byte with a single bit, or none. -/
def bit (place : UInt8) (flag : Bool) : UInt8 := if flag then place else 0

/-- The flags as one byte, in which the reserved bit is always one. -/
def pack (status : Status) : UInt8 :=
  bit 0x80 status.negative ||| bit 0x40 status.overflow ||| 0x20 ||| bit 0x10 status.breakMark |||
    bit 0x08 status.decimalMode ||| bit 0x04 status.interruptDisable ||| bit 0x02 status.zero |||
    bit 0x01 status.carry

/-- The flags that a byte stands for; its reserved bit does not count. -/
def unpack (byte : UInt8) : Status where
  negative := byte &&& 0x80 != 0
  overflow := byte &&& 0x40 != 0
  reserved := true
  breakMark := byte &&& 0x10 != 0
  decimalMode := byte &&& 0x08 != 0
  interruptDisable := byte &&& 0x04 != 0
  zero := byte &&& 0x02 != 0
  carry := byte &&& 0x01 != 0

/-- Packing loses nothing but the reserved bit. -/
theorem unpack_pack (status : Status) : unpack status.pack = { status with reserved := true } := by
  rcases status with ⟨negative, overflow, reserved, breakMark, decimalMode, interrupt, zero, carry⟩
  cases negative <;> cases overflow <;> cases reserved <;> cases breakMark <;>
    cases decimalMode <;> cases interrupt <;> cases zero <;> cases carry <;> rfl

/-! ### Flags that follow from a result -/

/-- Whether the highest bit is set. -/
def isNegative (byte : UInt8) : Bool := byte &&& 0x80 != 0

/-- Whether a result has the other sign than both operands of its addition. -/
def isOverflow (first second result : UInt8) : Bool :=
  (first ^^^ result) &&& (second ^^^ result) &&& 0x80 != 0

/-- The flags with another carry. -/
def withCarry (status : Status) (carry : Bool) : Status := { status with carry }

/-- The zero flag tells whether a result is zero. -/
def withZero (status : Status) (result : UInt8) : Status := { status with zero := result == 0 }

/-- The negative flag takes the highest bit of a result. -/
def withNegative (status : Status) (result : UInt8) : Status :=
  { status with negative := isNegative result }

/-- The overflow flag tells whether the result of an addition has the wrong sign. -/
def withOverflow (status : Status) (first second result : UInt8) : Status :=
  { status with overflow := isOverflow first second result }

/-- The flags after a result: zero and negative tell its value, the others stay. -/
def withResult (status : Status) (result : UInt8) : Status :=
  (status.withZero result).withNegative result

/-! ### Text -/

/-- All eight places from the highest bit down, each as `0` or `1`. -/
def digits (status : Status) : List Char :=
  [status.negative, status.overflow, status.reserved, status.breakMark, status.decimalMode,
    status.interruptDisable, status.zero, status.carry].map fun flag ↦ if flag then '1' else '0'

end Status

end Mos6502
