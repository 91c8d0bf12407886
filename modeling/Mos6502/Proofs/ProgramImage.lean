import Mos6502.Proofs.ProgramFiles

/-!
The program that the options of the command line ask for, told from the files. `Provides` relates
the options to an image: the demo where they name no file, the image that a dump spells, and the
bytes of a raw file. `Unreadable` relates them to what is wrong with a file. It is one or the other
unless a raw file has a size for which there may be no room (`provides_or_unreadable`).
-/

set_option autoImplicit false
set_option relaxedAutoImplicit false

namespace Mos6502

namespace CommandLine

/-- Whether a path ends like that of a dump. -/
def NamesDump (path : Text) : Prop :=
  ∃ ending ∈ [".hex", ".txt", ".dump"], ending.toList <:+ path

theorem isDump_iff {path : Text} : isDump path = true ↔ NamesDump path := by
  rw [isDump, List.any_eq_true]
  exact exists_congr fun ending ↦ and_congr_right fun _ ↦ List.isSuffixOf_iff_suffix

theorem NamesDump.ne_nil {path : Text} (hform : NamesDump path) : path ≠ [] := by
  rintro rfl
  exact absurd (isDump_iff.mpr hform) (by decide)

/-- Whether options ask for an image as their program. -/
inductive Provides (files : Files) (options : Options) : Image → Prop
  | demo (hnone : options.program = []) :
      Provides files options ⟨Memory.programOrigin, demoProgram⟩
  | dump {source : Source} {image : Image} (hform : NamesDump options.program)
      (hopens : files options.program = some source)
      (hdump : HexDump.IsDump (Text.ofBytes source.bytes) image) : Provides files options image
  | raw {source : Source} {size : Nat} (hnamed : options.program ≠ [])
      (hform : ¬NamesDump options.program) (hopens : files options.program = some source)
      (hsize : source.size = some size) (hroom : size ≤ Binary.roomLimit)
      (hdelivers : size ≤ source.bytes.length) :
      Provides files options ⟨options.origin, source.bytes.take size⟩

/-- Whether options ask for a file that does not open, that is named like a dump and is none, or
that is raw and does not tell its size or ends before it. The error is what is said of it. -/
inductive Unreadable (files : Files) (options : Options) : FileFormat → ReadError → Prop
  | closedDump (hform : NamesDump options.program) (hopens : files options.program = none) :
      Unreadable files options .hexDump (.cannotOpen options.program)
  | noDump {source : Source} {error : ReadError} (hform : NamesDump options.program)
      (hopens : files options.program = some source)
      (hnone : ∀ image, ¬HexDump.IsDump (Text.ofBytes source.bytes) image)
      (herror : (HexDump.read (Text.ofBytes source.bytes)).error = some error) :
      Unreadable files options .hexDump error
  | closedRaw (hnamed : options.program ≠ []) (hform : ¬NamesDump options.program)
      (hopens : files options.program = none) :
      Unreadable files options .binary (.cannotOpen options.program)
  | unknownSize {source : Source} (hnamed : options.program ≠ [])
      (hform : ¬NamesDump options.program) (hopens : files options.program = some source)
      (hsize : source.size = none) :
      Unreadable files options .binary (.unknownSize options.program)
  | shortRead {source : Source} {size : Nat} (hnamed : options.program ≠ [])
      (hform : ¬NamesDump options.program) (hopens : files options.program = some source)
      (hsize : source.size = some size) (hroom : size ≤ Binary.roomLimit)
      (hshort : source.bytes.length < size) :
      Unreadable files options .binary (.shortRead options.program source.bytes.length size)

/-- Whether options ask for a raw file of a size for which there may be no room. -/
def NeedsRoom (files : Files) (options : Options) : Prop :=
  options.program ≠ [] ∧ ¬NamesDump options.program ∧
    ∃ source size, files options.program = some source ∧ source.size = some size ∧
      Binary.roomLimit < size

section Image

variable {files : Files} {options : Options}

/-- Where there is room, a file provides a program or cannot be read. -/
theorem provides_or_unreadable (files : Files) (options : Options) :
    (∃ image, Provides files options image) ∨
      (∃ format error, Unreadable files options format error) ∨ NeedsRoom files options := by
  by_cases hnone : options.program = []
  · exact .inl ⟨_, .demo hnone⟩
  by_cases hform : NamesDump options.program
  · cases hopens : files options.program with
    | none => exact .inr (.inl ⟨_, _, .closedDump hform hopens⟩)
    | some source =>
      by_cases hdump : ∃ image, HexDump.IsDump (Text.ofBytes source.bytes) image
      · obtain ⟨image, hdump⟩ := hdump
        exact .inl ⟨image, .dump hform hopens hdump⟩
      · obtain ⟨error, herror⟩ := HexDump.exists_error_of_not_isDump (not_exists.mp hdump)
        exact .inr (.inl ⟨_, _, .noDump hform hopens (not_exists.mp hdump) herror⟩)
  · cases hopens : files options.program with
    | none => exact .inr (.inl ⟨_, _, .closedRaw hnone hform hopens⟩)
    | some source =>
      cases hsize : source.size with
      | none => exact .inr (.inl ⟨_, _, .unknownSize hnone hform hopens hsize⟩)
      | some size =>
        rcases Nat.lt_or_ge Binary.roomLimit size with hlarge | hroom
        · exact .inr (.inr ⟨hnone, hform, source, size, hopens, hsize, hlarge⟩)
        rcases Nat.lt_or_ge source.bytes.length size with hshort | hdelivers
        · exact .inr (.inl ⟨_, _, .shortRead hnone hform hopens hsize hroom hshort⟩)
        · exact .inl ⟨_, .raw hnone hform hopens hsize hroom hdelivers⟩

theorem programImage_of_namesDump (hform : NamesDump options.program) :
    programImage files options =
      match HexDump.fromFile files options.program ⟨0, []⟩ with
      | ⟨_, some error⟩ => .error (.readFailed .hexDump error)
      | ⟨image, none⟩ => .ok image := by
  rw [programImage_of_named hform.ne_nil]
  exact if_pos (isDump_iff.mpr hform)

theorem programImage_of_raw (hnamed : options.program ≠ []) (hform : ¬NamesDump options.program) :
    programImage files options =
      match Binary.fromFile files options.program [] with
      | ⟨_, some error⟩ => .error (.readFailed .binary error)
      | ⟨bytes, none⟩ => .ok ⟨options.origin, bytes⟩ := by
  rw [programImage_of_named hnamed]
  exact if_neg (mt isDump_iff.mp hform)

/-- The image that is read is the one that the files provide. -/
theorem programImage_of_provides {image : Image} (hprovides : Provides files options image) :
    programImage files options = .ok image := by
  cases hprovides with
  | demo hnone =>
    rw [programImage, hnone]
    rfl
  | dump hform hopens hdump =>
    rw [programImage_of_namesDump hform, HexDump.fromFile, hopens]
    dsimp only
    rw [HexDump.read_eq_iff.mpr hdump]
  | raw hnamed hform hopens hsize hroom hdelivers =>
    rw [programImage_of_raw hnamed hform, Binary.fromFile, hopens]
    dsimp only
    rw [Binary.read, hsize]
    dsimp only
    rw [if_pos (List.length_take_of_le hdelivers)]

/-- What is said of a file is what is wrong with it. -/
theorem programImage_of_unreadable {format : FileFormat} {error : ReadError}
    (hunreadable : Unreadable files options format error) :
    programImage files options = .error (.readFailed format error) := by
  cases hunreadable with
  | closedDump hform hopens => rw [programImage_of_namesDump hform, HexDump.fromFile, hopens]
  | noDump hform hopens hnone herror =>
    rw [programImage_of_namesDump hform, HexDump.fromFile, hopens]
    dsimp only
    rw [show HexDump.read _ = ⟨_, some error⟩ from congrArg (Reading.mk _) herror]
  | closedRaw hnamed hform hopens =>
    rw [programImage_of_raw hnamed hform, Binary.fromFile, hopens]
  | unknownSize hnamed hform hopens hsize =>
    rw [programImage_of_raw hnamed hform, Binary.fromFile, hopens]
    dsimp only
    rw [Binary.read, hsize]
  | shortRead hnamed hform hopens hsize hroom hshort =>
    rw [programImage_of_raw hnamed hform, Binary.fromFile, hopens]
    dsimp only
    rw [Binary.read, hsize]
    dsimp only
    rw [List.take_of_length_le (Nat.le_of_lt hshort), if_neg (Nat.ne_of_lt hshort)]

end Image

end CommandLine

end Mos6502
