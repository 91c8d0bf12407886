import Mos6502.Image.ByteToken
import Mos6502.Memory

/-!
Dumps: lines of hexadecimal bytes, each with the address of its first byte and a colon in front.

`HexDump.write` writes the dump of a stretch of memory in rows of sixteen bytes. `HexDump.read`
accepts more: lines of any length, a dollar sign before an address, comments, and lines of blanks.
Every line has to continue where the last one ended, and the image has to end at the last address
at the latest.
-/

set_option autoImplicit false
set_option relaxedAutoImplicit false

namespace Mos6502.HexDump

/-! ### Writing -/

/-- The line with the sixteen bytes from an address on. -/
def row (memory : Memory) (address : UInt16) : Text :=
  Hex.word address ++ ": ".toList ++
    ((memory.readBytes address 16).flatMap fun byte ↦ Hex.byte byte ++ [' ']) ++ ['\n']

/-- The lines with as many rows of sixteen bytes as asked for. -/
def write (memory : Memory) (base : UInt16) (rows : Nat) : Text :=
  (List.range rows).flatMap fun index ↦ row memory (base + UInt16.ofNat (16 * index))

/-! ### Reading -/

/-- An image in the making; the first line that has an address settles the origin. -/
structure Draft where
  origin : Option UInt16 := none
  bytes : Array UInt8 := #[]

/-- The image as far as it was made. -/
def Draft.image (draft : Draft) : Image := ⟨draft.origin.getD 0, draft.bytes.toList⟩

/-- What counts of the address in front of the colon: no blanks, and no dollar sign. -/
def addressDigits (line : Text) : Text :=
  Hex.dropDollar ((line.takeWhile (· != ':')).filter fun character ↦ !Text.isBlank character)

/-- The tokens behind the colon. -/
def tokens (line : Text) : List Text :=
  Text.words ((line.dropWhile (· != ':')).drop 1)

/-- Adds the bytes of a line whose address has been read. -/
def Draft.extend (draft : Draft) (number : Nat) (start : UInt16) (tokens : List Text) :
    Draft × Option ReadError :=
  match draft with
  | ⟨origin, bytes⟩ =>
      let origin := origin.getD start
      let expected := origin.toNat + bytes.size
      if start.toNat ≠ expected then
        (⟨some origin, bytes⟩, some (.notContiguous number start.toNat expected))
      else
        let (bytes, error) := ByteToken.readAll bytes (tokens.map fun token ↦ (number, token))
        let tooLong := if 65536 < origin.toNat + bytes.size then some (.pastEnd number) else none
        (⟨some origin, bytes⟩, error.or tooLong)

/-- Adds a line. -/
def Draft.addLine (draft : Draft) (number : Nat) (line : Text) : Draft × Option ReadError :=
  if line.contains ':' then
    let digits := addressDigits line
    if Hex.isAddress digits then
      draft.extend number (UInt16.ofNat (Hex.value digits)) (tokens line)
    else (draft, some (.badAddress number digits))
  else (draft, some (.missingColon number))

/-- Adds lines up to the first bad one. -/
def Draft.addLines (draft : Draft) : List (Nat × Text) → Draft × Option ReadError
  | [] => (draft, none)
  | (number, line) :: rest =>
      match draft.addLine number line with
      | (next, none) => next.addLines rest
      | (next, some error) => (next, some error)

/-- The lines that say something, without their comments. -/
def contentLines (text : Text) : List (Nat × Text) :=
  (text.numberedLines.map fun (number, line) ↦ (number, line.stripComment)).filter
    fun (_, line) ↦ !line.all Text.isBlank

/-- Reads the image of a dump up to the first mistake; there has to be one byte at least. -/
def read (text : Text) : Reading Image :=
  match Draft.addLines {} (contentLines text) with
  | (draft, some error) => ⟨draft.image, some error⟩
  | (draft, none) => ⟨draft.image, if draft.bytes.isEmpty then some .noBytes else none⟩

/-- Reads a file; one that cannot be opened leaves the image that was there before. -/
def fromFile (files : Files) (path : Text) (before : Image) : Reading Image :=
  match files path with
  | none => ⟨before, some (.cannotOpen path)⟩
  | some source => read (Text.ofBytes source.bytes)

end Mos6502.HexDump
