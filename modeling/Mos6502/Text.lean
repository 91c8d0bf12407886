/-!
Text as the program reads and writes it: a list of characters, each of which stands for one byte.
Bytes above 127 are characters like any other, so text that is not well-formed in some encoding
passes through unchanged (`Text.toBytes_ofBytes`).

The module also holds the rules for cutting text up. `Text.pieces` cuts at every separator and
drops nothing but an empty last piece; lines are the pieces between line feeds, words the non-empty
pieces between blanks. `Text.stripComment` keeps a line up to its first comment marker. `decimal`
writes a number with decimal digits.
-/

set_option autoImplicit false
set_option relaxedAutoImplicit false

namespace Mos6502

/-- Characters, each standing for the byte with its code. -/
abbrev Text := List Char

namespace Text

/-! ### Bytes -/

/-- The characters that stand for bytes. -/
def ofBytes (bytes : List UInt8) : Text :=
  bytes.map fun byte ↦ Char.ofNat byte.toNat

/-- The bytes that characters stand for. -/
def toBytes (text : Text) : List UInt8 :=
  text.map fun character ↦ UInt8.ofNat character.toNat

theorem toNat_ofNat_byte (byte : UInt8) : (Char.ofNat byte.toNat).toNat = byte.toNat := by
  have small : byte.toNat < 256 := byte.toNat_lt
  have valid : byte.toNat.isValidChar := Or.inl (by omega)
  rw [Char.ofNat, dif_pos valid]
  rfl

/-- Reading bytes as text loses nothing. -/
theorem toBytes_ofBytes (bytes : List UInt8) : toBytes (ofBytes bytes) = bytes := by
  simp [toBytes, ofBytes, toNat_ofNat_byte, Function.comp_def]

/-! ### Cutting at separators -/

/-- The blanks: space, tab, line feed, vertical tab, form feed and carriage return. -/
def isBlank (character : Char) : Bool :=
  character == ' ' || (9 ≤ character.toNat && character.toNat ≤ 13)

/-- Puts a character in front of the first piece, opening one if there is none. -/
def extendFirst (character : Char) : List Text → List Text
  | [] => [[character]]
  | first :: rest => (character :: first) :: rest

/-- The stretches that separators end, and what follows the last separator unless that is empty. -/
def pieces (isSeparator : Char → Bool) (text : Text) : List Text :=
  text.foldr
    (fun character rest ↦
      if isSeparator character then [] :: rest else extendFirst character rest) []

theorem pieces_cons (isSeparator : Char → Bool) (character : Char) (text : Text) :
    pieces isSeparator (character :: text) =
      if isSeparator character then [] :: pieces isSeparator text
      else extendFirst character (pieces isSeparator text) := rfl

/-- A separator ends the piece in front of it. -/
theorem pieces_append (isSeparator : Char → Bool) (piece : Text) (separator : Char) (rest : Text)
    (inside : ∀ character ∈ piece, isSeparator character = false)
    (ends : isSeparator separator = true) :
    pieces isSeparator (piece ++ separator :: rest) = piece :: pieces isSeparator rest := by
  induction piece with
  | nil => simp [pieces_cons, ends]
  | cons character piece ih =>
    have tail := ih fun other member ↦ inside other (List.mem_cons_of_mem _ member)
    have head := inside character List.mem_cons_self
    simp [pieces_cons, head, tail, extendFirst]

/-- The lines of a text; a line feed at the very end opens no further line. -/
def lines (text : Text) : List Text :=
  text.pieces (· == '\n')

/-- The lines of a text with their numbers, counted from one. -/
def numberedLines (text : Text) : List (Nat × Text) :=
  text.lines.zipIdx.map fun (line, index) ↦ (index + 1, line)

/-- The words of a text: its longest stretches without blanks. -/
def words (text : Text) : List Text :=
  (text.pieces isBlank).filter fun piece ↦ !piece.isEmpty

/-- The text in front of the first NUL. The operating system takes paths and arguments no
further. -/
def untilNul (text : Text) : Text :=
  text.takeWhile (· != '\x00')

/-! ### Comments -/

/-- A comment starts at `#`, at `;`, and at a slash that another slash follows. -/
def opensComment (character next : Char) : Bool :=
  character == '#' || character == ';' || (character == '/' && next == '/')

/-- The text in front of the first comment. -/
def stripComment (text : Text) : Text :=
  ((text.zip (text.drop 1 ++ ['\n'])).takeWhile
    fun (character, next) ↦ !opensComment character next).map Prod.fst

/-- A character that opens a comment ends the text, and any other stays. -/
theorem stripComment_cons (character : Char) (text : Text) :
    stripComment (character :: text) =
      if opensComment character (text.headD '\n') then [] else character :: stripComment text := by
  cases text <;>
    simp only [stripComment, List.drop_succ_cons, List.drop_zero, List.nil_append,
      List.cons_append, List.zip_cons_cons, List.takeWhile_cons, List.headD_nil,
      List.headD_cons] <;>
    split <;> simp_all

end Text

/-- The decimal numeral of a number. -/
def decimal (number : Nat) : Text := Nat.toDigits 10 number

end Mos6502
