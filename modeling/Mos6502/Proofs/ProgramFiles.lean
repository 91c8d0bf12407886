import Mos6502.CommandLine
import Mos6502.Proofs.DumpRoundTrip

/-!
Programs in files. The same bytes may lie in a raw file, which is loaded where an option says, or
in a dump, of which every line has its address. A dump may divide the bytes into lines in any way
(`HexDump.DumpsChunks`); the lines spell rows that go on one where the other ends
(`HexDump.contiguous_chunkRows`), so the dump is that of all the bytes
(`HexDump.isDump_of_dumpsChunks`).

Switches in front of the program settle the machine whatever the file is
(`CommandLine.judge_switches`). Hence both forms start the same machine, and everything that is said
afterwards is the same (`CommandLine.start_same_from_both_forms`).
-/

set_option autoImplicit false
set_option relaxedAutoImplicit false

namespace Mos6502

namespace HexDump

/-! ### Dumps in chunks -/

/-- The line that spells a row: the address and a colon, then the bytes with a blank between two of
them. -/
def Row.line (row : Row) : Text :=
  Hex.word row.start ++ ':' :: ' ' :: [' '].intercalate (row.bytes.map Hex.byte)

/-- The rows of chunks that lie one behind the other. A chunk that would begin behind the last
address has none. -/
def chunkRows (address : Nat) : List (List UInt8) → List Row
  | [] => []
  | chunk :: rest =>
      if address ≤ 65535 then
        ⟨UInt16.ofNat address, chunk⟩ :: chunkRows (address + chunk.length) rest
      else chunkRows (address + chunk.length) rest

/-- Whether a text has the lines of the chunks. The last one may have a line feed at its end. -/
def DumpsChunks (text : Text) (origin : UInt16) (chunks : List (List UInt8)) : Prop :=
  let lines := (chunkRows origin.toNat chunks).map Row.line
  text = ['\n'].intercalate lines ∨ text = unlines lines

instance (text : Text) (origin : UInt16) (chunks : List (List UInt8)) :
    Decidable (DumpsChunks text origin chunks) := inferInstanceAs (Decidable (_ ∨ _))

/-- The line of a row spells it. -/
theorem spellsRow_line (row : Row) : SpellsRow row.line row := by
  have hwords : Text.words (' ' :: [' '].intercalate (row.bytes.map Hex.byte)) =
      row.bytes.map Hex.byte := by
    rw [← List.nil_append (' ' :: _), Text.words_append_cons [] rfl, Text.words_intercalate]
    · rfl
    · intro part hpart
      obtain ⟨byte, -, rfl⟩ := List.mem_map.mp hpart
      exact ⟨List.cons_ne_nil _ _, fun character hmem ↦ (Hex.isPlain_of_mem_byte hmem).1⟩
  exact spellsRow_of_words hwords

theorem colon_mem_line (row : Row) : ':' ∈ row.line :=
  List.mem_append_right _ List.mem_cons_self

theorem apart_of_mem_line {row : Row} {character : Char} (hmem : character ∈ row.line) :
    character ≠ '\n' ∧ character ∉ ['#', ';', '/'] := by
  unfold Row.line at hmem
  rw [List.mem_append, List.mem_cons, List.mem_cons] at hmem
  rcases hmem with haddress | rfl | rfl | hbytes
  · exact (Hex.isPlain_of_mem_word haddress).apart
  · decide
  · decide
  · obtain rfl | ⟨part, hpart, hcharacter⟩ := Text.mem_intercalate hbytes
    · decide
    · obtain ⟨byte, -, rfl⟩ := List.mem_map.mp hpart
      exact (Hex.isPlain_of_mem_byte hcharacter).apart

/-! ### Rows of chunks -/

/-- A further chunk adds a row unless the others fill the memory. -/
theorem chunkRows_concat (address : Nat) (chunks : List (List UInt8)) (last : List UInt8) :
    chunkRows address (chunks ++ [last]) =
      chunkRows address chunks ++ chunkRows (address + chunks.flatten.length) [last] := by
  induction chunks generalizing address with
  | nil => rfl
  | cons chunk rest ih =>
    rw [List.cons_append, chunkRows, chunkRows, ih, List.flatten_cons, List.length_append,
      Nat.add_assoc]
    split
    · rfl
    · rfl

section Rows

variable {origin : UInt16} {chunks : List (List UInt8)}

/-- The first row has the address where the chunks begin. -/
theorem start_head?_chunkRows (origin : UInt16) (chunk : List UInt8) (rest : List (List UInt8)) :
    (chunkRows origin.toNat (chunk :: rest)).head?.map Row.start = some origin := by
  rw [chunkRows, if_pos (Nat.le_of_lt_succ origin.toNat_lt)]
  exact congrArg some (UInt16.ofNat_toNat ..)

/-- The rows have all the bytes, since a chunk without a row is empty. -/
theorem allBytes_chunkRows {address : Nat} (hfits : address + chunks.flatten.length ≤ 65536) :
    allBytes (chunkRows address chunks) = chunks.flatten := by
  induction chunks generalizing address with
  | nil => rfl
  | cons chunk rest ih =>
    rw [List.flatten_cons, List.length_append, ← Nat.add_assoc] at hfits
    have hrest := ih hfits
    rw [chunkRows]
    split
    · exact congrArg (chunk ++ ·) hrest
    · have hempty : chunk = [] := List.eq_nil_of_length_eq_zero (by omega)
      rw [hrest, List.flatten_cons, hempty, List.nil_append]

/-- The rows of chunks that fit go on one where the other ends. -/
theorem contiguous_chunkRows (hfits : origin.toNat + chunks.flatten.length ≤ 65536) :
    Contiguous (chunkRows origin.toNat chunks) := by
  -- The chunks are taken away from the end, as a row is judged by all rows in front of it.
  induction chunks using List.reverseRecOn with
  | nil => exact contiguous_nil
  | append_singleton chunks last ih =>
    rw [List.flatten_append, List.length_append, List.flatten_singleton] at hfits
    have hearlier := ih (by omega)
    have hbytes : allBytes (chunkRows origin.toNat chunks) = chunks.flatten :=
      allBytes_chunkRows (by omega)
    rw [chunkRows_concat, chunkRows]
    split
    next hroom =>
      refine contiguous_concat_iff.mpr ⟨hearlier, ?_⟩
      have hplace : (UInt16.ofNat (origin.toNat + chunks.flatten.length)).toNat =
          origin.toNat + chunks.flatten.length :=
        UInt16.toNat_ofNat_of_lt' (Nat.lt_succ_of_le hroom)
      have hstart : ((chunkRows origin.toNat chunks).head?.getD
          ⟨UInt16.ofNat (origin.toNat + chunks.flatten.length), last⟩).start = origin := by
        cases chunks with
        | nil => exact UInt16.ofNat_toNat ..
        | cons chunk rest =>
          obtain ⟨first, hfirst, horigin⟩ :=
            Option.map_eq_some_iff.mp (start_head?_chunkRows origin chunk rest)
          rw [hfirst]
          exact horigin
      unfold Continues
      rw [hstart, allBytes_concat, hbytes, List.length_append]
      exact ⟨hplace, hfits⟩
    next => rwa [chunkRows, List.append_nil]

end Rows

/-! ### Reading chunks -/

theorem lines_of_dumpsChunks {text : Text} {origin : UInt16} {chunks : List (List UInt8)}
    (htext : DumpsChunks text origin chunks) :
    text.lines = (chunkRows origin.toNat chunks).map Row.line := by
  have hinside : ∀ line ∈ (chunkRows origin.toNat chunks).map Row.line, ∀ character ∈ line,
      (character == '\n') = false :=
    List.forall_mem_map.mpr fun row _ character hmem ↦
      beq_eq_false_iff_ne.mpr (apart_of_mem_line hmem).1
  have hsome : ∀ line ∈ (chunkRows origin.toNat chunks).map Row.line, line ≠ [] :=
    List.forall_mem_map.mpr fun row _ ↦ List.ne_nil_of_mem (colon_mem_line row)
  rcases htext with rfl | rfl
  · exact Text.pieces_intercalate hinside hsome rfl
  · exact Text.pieces_flatMap hinside rfl

/-- Chunks that fit and hold a byte make up the dump of all their bytes. -/
theorem isDump_of_dumpsChunks {text : Text} {origin : UInt16} {chunks : List (List UInt8)}
    (htext : DumpsChunks text origin chunks) (hsome : chunks.flatten ≠ [])
    (hfits : origin.toNat + chunks.flatten.length ≤ 65536) :
    IsDump text ⟨origin, chunks.flatten⟩ := by
  have hspell := forall₂_spellsRow_map (lines_of_dumpsChunks htext) spellsRow_line
    fun _ _ hmem ↦ (apart_of_mem_line hmem).2
  rw [List.map_id'] at hspell
  have hstart : (chunkRows origin.toNat chunks).head?.map Row.start = some origin := by
    cases chunks with
    | nil => exact absurd rfl hsome
    | cons chunk rest => exact start_head?_chunkRows origin chunk rest
  exact ⟨_, ⟨hspell, contiguous_chunkRows hfits⟩, hstart, (allBytes_chunkRows hfits).symm, hsome⟩

end HexDump

namespace CommandLine

/-! ### Arguments -/

/-- The options that take no value, but for those that ask for help. -/
def switchNames : List Text := ["--legacy-indirect", "--trace", "--run"].map String.toList

/-- Options with switches added to them. -/
def Options.withSwitches (options : Options) (switches : List Text) : Options :=
  { options with
    settings :=
      { options.settings with
        indirect :=
          if "--legacy-indirect".toList ∈ switches then .legacy else options.settings.indirect
        trace := decide ("--trace".toList ∈ switches) || options.settings.trace }
    batch := decide ("--run".toList ∈ switches) || options.batch }

theorem Options.withSwitches_nil (options : Options) : options.withSwitches [] = options := by
  simp [withSwitches]

theorem Options.withSwitches_cons (options : Options) (switch : Text) (switches : List Text) :
    options.withSwitches (switch :: switches) =
      (options.withSwitches [switch]).withSwitches switches := by
  unfold withSwitches
  -- This holds whatever the switches are called, and their names stand in the way of `simp`.
  generalize "--legacy-indirect".toList = legacy, "--trace".toList = trace, "--run".toList = run
  simp only [List.mem_cons, List.not_mem_nil, or_false, Bool.decide_or, Options.mk.injEq,
    Settings.mk.injEq, and_true, Bool.or_assoc, Bool.or_comm]
  by_cases hlegacy : legacy ∈ switches
  · simp only [hlegacy, or_true, if_true]
  · simp only [hlegacy, or_false, if_false]

/-- A switch is added to the options of the arguments before. -/
theorem judge_switch {switch : Text} (hswitch : switch ∈ switchNames) (options : Options)
    (rest : List Text) :
    judge options (switch :: rest) = judge (options.withSwitches [switch]) rest := by
  have hcases : switch = "--legacy-indirect".toList ∨ switch = "--trace".toList ∨
      switch = "--run".toList := by
    simpa only [switchNames, List.map_cons, List.map_nil, List.mem_cons, List.not_mem_nil,
      or_false] using hswitch
  rw [judge.eq_def]
  dsimp only
  rcases hcases with rfl | rfl | rfl
  · rw [if_neg (by decide), if_pos rfl]
    rfl
  · rw [if_neg (by decide), if_neg (by decide), if_pos rfl]
    rfl
  · rw [if_neg (by decide), if_neg (by decide), if_neg (by decide), if_pos rfl]
    rfl

/-- Switches in front of other arguments are added to the options. -/
theorem judge_switches {switches : List Text} (hswitches : switches ⊆ switchNames)
    (options : Options) (rest : List Text) :
    judge options (switches ++ rest) = judge (options.withSwitches switches) rest := by
  induction switches generalizing options with
  | nil => rw [List.nil_append, Options.withSwitches_nil]
  | cons switch switches ih =>
    obtain ⟨hswitch, hothers⟩ := List.cons_subset.mp hswitches
    rw [List.cons_append, judge_switch hswitch, ih hothers, ← Options.withSwitches_cons]

theorem judge_origin {value : Text} {origin : UInt16} (hvalue : Hex.address? value = some origin)
    (options : Options) (rest : List Text) :
    judge options ("--origin".toList :: value :: rest) = judge { options with origin } rest := by
  rw [judge.eq_def]
  dsimp only
  rw [if_neg (by decide), if_neg (by decide), if_neg (by decide), if_neg (by decide), if_pos rfl,
    hvalue]

/-- A path that does not begin like an option names the program. -/
theorem judge_path {path : Text} (hpath : path.head? ≠ some '-') (options : Options)
    (rest : List Text) :
    judge options (path :: rest) = judge { options with program := path } rest := by
  have hother {option : Text} (hoption : option.head? = some '-') : path ≠ option := by
    rintro rfl
    exact hpath hoption
  rw [judge.eq_def]
  dsimp only
  rw [if_neg (not_or.mpr ⟨hother (by decide), hother (by decide)⟩), if_neg (hother (by decide)),
    if_neg (hother (by decide)), if_neg (hother (by decide)), if_neg (hother (by decide)),
    if_neg hpath]

/-! ### Starting -/

/-- Whether two files hold one program: the first its bytes, and the second a dump of them in
chunks. -/
structure HoldSame (files : Files) (raw dump : Text) (origin : UInt16)
    (chunks : List (List UInt8)) : Prop where
  some_bytes : chunks.flatten ≠ []
  fits : origin.toNat + chunks.flatten.length ≤ 65536
  raw_name : raw ≠ [] ∧ raw.head? ≠ some '-' ∧ isDump raw = false
  dump_name : dump.head? ≠ some '-' ∧ isDump dump = true
  raw_file : files raw = some (Source.ofBytes chunks.flatten)
  dump_file : ∃ content, files dump = some (Source.ofBytes content) ∧
    HexDump.DumpsChunks (Text.ofBytes content) origin chunks

/-- What is started with switches and a program. -/
def startWith (switches : List Text) (bytes : List UInt8) (origin : UInt16) : Start :=
  let options := Options.withSwitches {} switches
  let machine := (({ settings := options.settings } : Machine).withProgram bytes origin).reset
  if options.batch then .batch machine else .monitor { machine }

section Start

variable {files : Files} {raw dump : Text} {origin : UInt16} {chunks : List (List UInt8)}

/-- The image of the program that options ask for, or the complaint about its file. -/
def programImage (files : Files) (options : Options) : Except Reply Image :=
  if options.program.isEmpty then .ok ⟨Memory.programOrigin, demoProgram⟩
  else readProgram files options.program options.origin

theorem programImage_of_named {options : Options} (hprogram : options.program ≠ []) :
    programImage files options = readProgram files options.program options.origin := by
  have hnamed : options.program.isEmpty = false := by simpa using hprogram
  rw [programImage, hnamed, if_neg Bool.false_ne_true]

/-- A program that fits is loaded, and the machine is reset. -/
theorem prepare_of_programImage {options : Options} {image : Image}
    (himage : programImage files options = .ok image)
    (hfits : image.origin.toNat + image.bytes.length ≤ 65536) :
    prepare files options =
      .ok (({ settings := options.settings } : Machine).withProgram image.bytes
        image.origin).reset := by
  unfold programImage at himage
  simp only [prepare, himage, Except.bind, loadImage, Machine.loadProgram_eq _ hfits]

theorem start_of_prepare {arguments : List Text} {options : Options} {machine : Machine}
    (hjudge : judge {} arguments = .start options)
    (hprepare : prepare files options = .ok machine) :
    start files arguments = if options.batch then .batch machine else .monitor { machine } := by
  unfold start
  rw [hjudge]
  dsimp only
  rw [hprepare]

theorem start_raw (hsame : HoldSame files raw dump origin chunks) {value : Text}
    (hvalue : Hex.address? value = some origin) {switches : List Text}
    (hswitches : switches ⊆ switchNames) :
    start files (switches ++ ["--origin".toList, value, raw]) =
      startWith switches chunks.flatten origin := by
  obtain ⟨hnamed, hpath, hform⟩ := hsame.raw_name
  have hjudge := (judge_switches hswitches {} _).trans
    ((judge_origin hvalue _ [raw]).trans (judge_path hpath _ []))
  have hread : readProgram files raw origin = .ok ⟨origin, chunks.flatten⟩ := by
    unfold readProgram Binary.fromFile
    rw [hsame.raw_file, hform]
    dsimp only
    rw [Binary.read_ofBytes]
    rfl
  have hstart := start_of_prepare hjudge
    (prepare_of_programImage ((programImage_of_named hnamed).trans hread) hsame.fits)
  exact hstart

theorem start_dump (hsame : HoldSame files raw dump origin chunks) {switches : List Text}
    (hswitches : switches ⊆ switchNames) :
    start files (switches ++ [dump]) = startWith switches chunks.flatten origin := by
  obtain ⟨hpath, hform⟩ := hsame.dump_name
  obtain ⟨content, hfile, hcontent⟩ := hsame.dump_file
  have hjudge := (judge_switches hswitches {} [dump]).trans (judge_path hpath _ [])
  have hnamed : dump ≠ [] := by
    rintro rfl
    exact absurd hform (by decide)
  have hread : readProgram files dump Memory.programOrigin = .ok ⟨origin, chunks.flatten⟩ := by
    have hdump := HexDump.isDump_of_dumpsChunks hcontent hsame.some_bytes hsame.fits
    unfold readProgram HexDump.fromFile
    rw [hfile, hform]
    dsimp only [Source.ofBytes]
    rw [HexDump.read_eq_iff.mpr hdump]
    rfl
  have hstart := start_of_prepare hjudge
    (prepare_of_programImage ((programImage_of_named hnamed).trans hread) hsame.fits)
  exact hstart

/-- A program is started in the same way from raw bytes and from a dump of them, however the dump
divides them into lines, and the same is said afterwards. -/
theorem start_same_from_both_forms (hsame : HoldSame files raw dump origin chunks) {value : Text}
    (hvalue : Hex.address? value = some origin) {switches : List Text}
    (hswitches : switches ⊆ switchNames) :
    let first := switches ++ ["--origin".toList, value, raw]
    let second := switches ++ [dump]
    start files first = startWith switches chunks.flatten origin ∧
      start files second = startWith switches chunks.flatten origin ∧
      ∀ budget lines,
        transcript budget files first lines = transcript budget files second lines := by
  intro first second
  have hfirst : start files first = startWith switches chunks.flatten origin :=
    start_raw hsame hvalue hswitches
  have hsecond : start files second = startWith switches chunks.flatten origin :=
    start_dump hsame hswitches
  refine ⟨hfirst, hsecond, fun budget lines ↦ ?_⟩
  unfold transcript
  rw [hfirst, hsecond]

end Start

/-- Eight bytes up to the last address, with the reset vector among them. The last chunk is empty
and has no line, as it would begin behind the last address. -/
theorem start_same_from_both_forms_of_covered_vector :
    let chunks : List (List UInt8) := [[0xA9], [], [0x01, 0x00, 0x00], [0x12, 0x34, 0x56, 0x78], []]
    let dump := "fff8: a9\nfff9: \nfff9: 01 00 00\nfffc: 12 34 56 78\n".toList
    let files : Files := fun path ↦
      if path = "prog.bin".toList then some (Source.ofBytes chunks.flatten)
      else if path = "prog.hex".toList then some (Source.ofBytes (Text.toBytes dump))
      else none
    let switches := ["--trace".toList, "--legacy-indirect".toList, "--run".toList]
    HoldSame files "prog.bin".toList "prog.hex".toList 0xFFF8 chunks ∧
      Hex.address? "$FFF8".toList = some 0xFFF8 ∧ switches ⊆ switchNames ∧
      start files (switches ++ ["--origin".toList, "$FFF8".toList, "prog.bin".toList]) =
        start files (switches ++ ["prog.hex".toList]) := by
  intro chunks dump files switches
  have hsame : HoldSame files "prog.bin".toList "prog.hex".toList 0xFFF8 chunks :=
    ⟨by decide, by decide, by decide, by decide, by decide, Text.toBytes dump, by decide,
      by decide⟩
  have hvalue : Hex.address? "$FFF8".toList = some 0xFFF8 := by decide
  have hswitches : switches ⊆ switchNames := by decide
  obtain ⟨hfirst, hsecond, -⟩ := start_same_from_both_forms hsame hvalue hswitches
  exact ⟨hsame, hvalue, hswitches, hfirst.trans hsecond.symm⟩

end CommandLine

end Mos6502
