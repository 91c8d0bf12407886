import Mos6502.Text

/-!
Hexadecimal numerals. Output is lower case with a fixed width: `Hex.byte` has two digits and
`Hex.word` four. Input takes digits of either case.

`Hex.address?` reads an address as people type it: an optional `$`, then an optional radix mark
`0x`, then one to four digits. `Hex.digitValue?_digitChar` says that the digits written are read
back as the same values.
-/

set_option autoImplicit false
set_option relaxedAutoImplicit false

namespace Mos6502.Hex

/-! ### Writing -/

/-- The two digits of a byte. -/
def byte (value : UInt8) : Text :=
  [Nat.digitChar (value.toNat / 16), Nat.digitChar (value.toNat % 16)]

/-- The digits of a byte are those of its value in base sixteen. -/
theorem exists_byte_eq (value : UInt8) : ∃ high low : Fin 16,
    byte value = [Nat.digitChar high, Nat.digitChar low] ∧ value.toNat = 16 * high + low := by
  have hhigh : value.toNat / 16 < 16 := by have := value.toNat_lt; omega
  have hlow : value.toNat % 16 < 16 := Nat.mod_lt _ (by decide)
  exact ⟨⟨_, hhigh⟩, ⟨_, hlow⟩, rfl, (Nat.div_add_mod value.toNat 16).symm⟩

/-- The four digits of an address. -/
def word (value : UInt16) : Text :=
  byte (value >>> 8).toUInt8 ++ byte value.toUInt8

/-- The numeral of a number, filled up with zeros to four digits. -/
def numeral (value : Nat) : Text :=
  (Nat.toDigits 16 value).leftpad 4 '0'

/-- The text with capital letters. -/
def upperCase (text : Text) : Text := text.map Char.toUpper

/-! ### Reading -/

/-- The value of a digit of either case. -/
def digitValue? (character : Char) : Option Nat :=
  if '0' ≤ character ∧ character ≤ '9' then some (character.toNat - '0'.toNat)
  else if 'a' ≤ character ∧ character ≤ 'f' then some (character.toNat - 'a'.toNat + 10)
  else if 'A' ≤ character ∧ character ≤ 'F' then some (character.toNat - 'A'.toNat + 10)
  else none

theorem digitValue?_digitChar : ∀ digit : Fin 16,
    digitValue? (Nat.digitChar digit) = some digit.val := by decide

/-- Whether a character is a digit of either case. -/
def isDigit (character : Char) : Bool := (digitValue? character).isSome

/-- The positional value of a string of digits. -/
def value (digits : Text) : Nat :=
  digits.foldl (fun total character ↦ 16 * total + (digitValue? character).getD 0) 0

/-- Drops a leading radix mark `0x` or `0X`, provided that something follows it. -/
def dropRadixMark : Text → Text
  | '0' :: 'x' :: next :: rest => next :: rest
  | '0' :: 'X' :: next :: rest => next :: rest
  | text => text

/-- Drops one leading dollar sign. -/
def dropDollar : Text → Text
  | '$' :: rest => rest
  | text => text

/-- A string of one to four digits. -/
def isAddress (digits : Text) : Bool :=
  1 ≤ digits.length && digits.length ≤ 4 && digits.all isDigit

/-- An address as typed: `$` and then `0x` may stand in front of one to four digits. -/
def address? (text : Text) : Option UInt16 :=
  let digits := dropRadixMark (dropDollar text)
  if isAddress digits then some (UInt16.ofNat (value digits)) else none

end Mos6502.Hex
