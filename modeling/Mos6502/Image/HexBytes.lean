import Mos6502.Image.ByteToken

/-!
Bytes as hexadecimal tokens between blanks. A line may end in a comment.
-/

set_option autoImplicit false
set_option relaxedAutoImplicit false

namespace Mos6502.HexBytes

/-- All tokens of a text in order, each with the number of its line. -/
def tokens (text : Text) : List (Nat × Text) :=
  text.numberedLines.flatMap fun (number, line) ↦
    line.stripComment.words.map fun token ↦ (number, token)

/-- Reads the bytes of a text up to the first bad token; there has to be one byte at least. -/
def read (text : Text) : Reading (List UInt8) :=
  match ByteToken.readAll #[] (tokens text) with
  | (bytes, some error) => ⟨bytes.toList, some error⟩
  | (bytes, none) => ⟨bytes.toList, if bytes.isEmpty then some .noBytes else none⟩

/-- Reads a file; one that cannot be opened leaves the bytes that were there before. -/
def fromFile (files : Files) (path : Text) (before : List UInt8) : Reading (List UInt8) :=
  match files path with
  | none => ⟨before, some (.cannotOpen path)⟩
  | some source => read (Text.ofBytes source.bytes)

end Mos6502.HexBytes
