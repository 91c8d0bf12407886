import Mos6502.Image

/-!
A directory of plain files as the place where paths start. A path is a row of names with slashes
between them. The empty name and a dot lead nowhere else, and two dots lead upwards. The name of a
file has to be the last one, so that a slash behind it makes a path that does not open. A path that
ends at a directory does open. Of the directories above nothing is known but that they are there.

`Directory.open?` opens paths. What follows a NUL in a path does not count.
-/

set_option autoImplicit false
set_option relaxedAutoImplicit false

namespace Mos6502

/-- Named files side by side. -/
structure Directory where
  files : List (Text × List UInt8)

namespace Directory

/-- Paths have to be shorter than this. -/
def pathLimit : Nat := 4096

/-- The names of a path; there is an empty one behind a slash at the end. -/
def names (path : Text) : List Text :=
  (path ++ ['/']).pieces (· == '/')

/-- Where the first names of a path have led. -/
inductive Location
  | inside
  | above
  deriving DecidableEq

/-- Where a path starts. -/
def start (path : Text) : Location :=
  if path.head? = some '/' then .above else .inside

/-- Follows names from a location. -/
def follow (directory : Directory) : Location → List Text → Option Source
  | _, [] => some .directory
  | location, name :: rest =>
      if name = [] ∨ name = ['.'] then directory.follow location rest
      else if name = ['.', '.'] then directory.follow .above rest
      else if location = .inside ∧ rest = [] then
        (directory.files.lookup name).map Source.ofBytes
      else none

/-- What a path opens. -/
def open? (directory : Directory) : Files := fun path ↦
  let path := path.untilNul
  if path.isEmpty ∨ pathLimit ≤ path.length then none
  else directory.follow (start path) (names path)

end Directory

end Mos6502
