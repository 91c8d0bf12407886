import Mos6502.Image

/-!
Raw bytes. The reader asks a source for as many bytes as its size tells. A source that delivers
fewer leaves the rest as it was before, filled up with zeros; one that does not know its size is not
read at all.

The reader makes room for all the bytes before it reads any. A program that does not get the room
breaks off without a word, which `read` does not tell of. Some directories have such sizes.
-/

set_option autoImplicit false
set_option relaxedAutoImplicit false

namespace Mos6502.Binary

/-- The size up to which there is room for sure. -/
def roomLimit : Nat := 0x100000000

/-- Reads a source over the bytes that were there before. -/
def read (name : Text) (source : Source) (before : List UInt8) : Reading (List UInt8) :=
  match source.size with
  | none => ⟨before, some (.unknownSize name)⟩
  | some size =>
      let delivered := source.bytes.take size
      if delivered.length = size then ⟨delivered, none⟩
      else
        let underneath := (before ++ List.replicate size 0).take size
        ⟨delivered ++ underneath.drop delivered.length,
          some (.shortRead name delivered.length size)⟩

/-- Reads a file over the bytes that were there before. -/
def fromFile (files : Files) (path : Text) (before : List UInt8) : Reading (List UInt8) :=
  match files path with
  | none => ⟨before, some (.cannotOpen path)⟩
  | some source => read path source before

/-- A plain file is read as it is. -/
theorem read_ofBytes (name : Text) (bytes before : List UInt8) :
    read name (Source.ofBytes bytes) before = ⟨bytes, none⟩ := by
  simp [read, Source.ofBytes]

end Mos6502.Binary
