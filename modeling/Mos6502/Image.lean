import Mos6502.Hex

/-!
Images: consecutive bytes with the address of the first. They are read from files in three
formats, and a reader that finds a mistake still hands over what it read before it; hence a
`Reading` holds contents and perhaps an error. `ReadError.message` is the wording of an error.
-/

set_option autoImplicit false
set_option relaxedAutoImplicit false

namespace Mos6502

/-- Consecutive bytes and the address of the first. -/
structure Image where
  origin : UInt16
  bytes : List UInt8
  deriving DecidableEq

/-! ### Files -/

/-- What a path opens: it tells its size, if it can, and then delivers its bytes. -/
structure Source where
  size : Option Nat
  bytes : List UInt8
  deriving DecidableEq

/-- A plain file; it tells the truth about its size. -/
def Source.ofBytes (bytes : List UInt8) : Source := ⟨some bytes.length, bytes⟩

/-- A directory opens like a file, but it has no size and delivers nothing. -/
def Source.directory : Source := ⟨none, []⟩

/-- What there is to open, by path. -/
abbrev Files := Text → Option Source

/-! ### Errors -/

/-- The file formats: raw bytes, bytes as hexadecimal tokens, and lines of such tokens with an
address in front. -/
inductive FileFormat
  | binary
  | hexBytes
  | hexDump
  deriving DecidableEq

/-- The name under which a format reports errors, which is also the command that loads it. -/
def FileFormat.tag : FileFormat → String
  | .binary => "loadbin"
  | .hexBytes => "loadhex"
  | .hexDump => "loaddump"

/-- What can be wrong with a token; `digits` is what counts of it. -/
inductive TokenFault
  | notHex (digits : Text)
  | outOfRange (digits : Text)
  deriving DecidableEq

/-- What can be wrong with a file. -/
inductive ReadError
  | cannotOpen (path : Text)
  | unknownSize (name : Text)
  | shortRead (name : Text) (delivered size : Nat)
  | badToken (line : Nat) (fault : TokenFault)
  | missingColon (line : Nat)
  | badAddress (line : Nat) (address : Text)
  | notContiguous (line start expected : Nat)
  | pastEnd (line : Nat)
  | noBytes
  deriving DecidableEq

/-- A text in single quotes. -/
def quoted (text : Text) : Text := '\'' :: text ++ ['\'']

/-- The wording of a token fault. -/
def TokenFault.describe : TokenFault → Text
  | .notHex digits => "non-hex token ".toList ++ quoted digits
  | .outOfRange digits => "byte out of range ".toList ++ quoted digits

/-- The wording of an error. -/
def ReadError.describe : ReadError → Text
  | .cannotOpen path => "cannot open ".toList ++ quoted path
  | .unknownSize name => "cannot determine size of ".toList ++ quoted name
  | .shortRead name delivered size =>
      "short read from ".toList ++ quoted name ++ " (".toList ++ decimal delivered ++
        " of ".toList ++ decimal size ++ " bytes)".toList
  | .badToken line fault => fault.describe ++ " at line ".toList ++ decimal line
  | .missingColon line => "missing ':' after address at line ".toList ++ decimal line
  | .badAddress line address =>
      "bad address ".toList ++ quoted address ++ " at line ".toList ++ decimal line
  | .notContiguous line start expected =>
      "line ".toList ++ decimal line ++ " starts at ".toList ++ Hex.numeral start ++
        ", expected ".toList ++ Hex.numeral expected ++ " (dump must be contiguous)".toList
  | .pastEnd line => "image runs past FFFF at line ".toList ++ decimal line
  | .noBytes => "no bytes read".toList

/-- The line that reports an error of a format. -/
def ReadError.message (format : FileFormat) (error : ReadError) : Text :=
  '[' :: format.tag.toList ++ "] ".toList ++ error.describe ++ ['\n']

/-- What a reader hands over: contents, and the error that stopped it if there was one. -/
structure Reading (α : Type) where
  contents : α
  error : Option ReadError
  deriving DecidableEq

end Mos6502
