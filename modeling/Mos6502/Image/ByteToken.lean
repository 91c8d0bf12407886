import Mos6502.Image

/-!
Bytes spelled as tokens: one or two hexadecimal digits, with an optional `0x` in front. Commas and
underscores in a token do not count, and a token of nothing else spells no byte.

`ByteToken.read` reads a single token and `ByteToken.readAll` as many as are good. The bytes of
good tokens are appended in order (`ByteToken.readAll_append`).
-/

set_option autoImplicit false
set_option relaxedAutoImplicit false

namespace Mos6502.ByteToken

/-- What counts of a token. -/
def digits (token : Text) : Text :=
  Hex.dropRadixMark (token.filter fun character ↦ character != ',' && character != '_')

/-- The byte that a token spells. A token of which nothing counts spells none. -/
def read (token : Text) : Except TokenFault (Option UInt8) :=
  let digits := digits token
  if digits.isEmpty then .ok none
  else if !digits.all Hex.isDigit then .error (.notHex digits)
  else if 2 < digits.length then .error (.outOfRange digits)
  else .ok (some (UInt8.ofNat (Hex.value digits)))

/-- Appends the bytes of tokens, each with the number of its line, up to the first bad one. -/
def readAll (bytes : Array UInt8) : List (Nat × Text) → Array UInt8 × Option ReadError
  | [] => (bytes, none)
  | (line, token) :: rest =>
      match read token with
      | .error fault => (bytes, some (.badToken line fault))
      | .ok none => readAll bytes rest
      | .ok (some byte) => readAll (bytes.push byte) rest

/-- Reading goes on behind tokens that are good, and stops at the first that is not. -/
theorem readAll_append (bytes : Array UInt8) (first second : List (Nat × Text)) :
    readAll bytes (first ++ second) =
      match readAll bytes first with
      | (read, none) => readAll read second
      | (read, some error) => (read, some error) := by
  induction first generalizing bytes with
  | nil => rfl
  | cons head rest ih =>
    obtain ⟨line, token⟩ := head
    simp only [List.cons_append, readAll]
    split
    · rfl
    · exact ih bytes
    · next byte _ => exact ih (bytes.push byte)

end Mos6502.ByteToken
