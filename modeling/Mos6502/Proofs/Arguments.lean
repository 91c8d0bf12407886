import Mos6502.Proofs.Ending
import Mos6502.Proofs.ProgramImage

/-!
What the arguments of the command line come to. An argument list consists of parts, which are
switches, origins with their values, and programs, up to the first argument that is none of these
and decides at once (`CommandLine.isCut`). Where nothing decides, the parts settle the options:
switches by being there, origins and programs by the last one
(`CommandLine.judge_spelling_eq_start`).

`CommandLine.outcome_of_arguments` goes on from there to the end of the program: help, a wrong
argument, a program that cannot be read, parsed or loaded, and a batch run that halts or comes to a
fault, each with its status and its words. What the files say of the program is told by
`CommandLine.Provides` and `CommandLine.Unreadable`. Nothing is said about raw files of a size for
which there may be no room (`CommandLine.NeedsRoom`).
-/

set_option autoImplicit false
set_option relaxedAutoImplicit false

namespace Mos6502

namespace CommandLine

/-! ### Parts -/

/-- A part of an argument list that does not decide. An origin takes its value from the next
argument, whatever that looks like. -/
inductive Part
  | switch (name : Text) (known : name ∈ switchNames)
  | origin (value : Text) (address : UInt16) (reads : Hex.address? value = some address)
  | program (path : Text) (proper : path.head? ≠ some '-')

namespace Part

/-- The arguments of a part. -/
def words : Part → List Text
  | switch name _ => [name]
  | origin value _ _ => ["--origin".toList, value]
  | program path _ => [path]

def switch? : Part → Option Text
  | switch name _ => some name
  | origin _ _ _ | program _ _ => none

def origin? : Part → Option UInt16
  | origin _ address _ => some address
  | switch _ _ | program _ _ => none

def program? : Part → Option Text
  | program path _ => some path
  | switch _ _ | origin _ _ _ => none

end Part

/-- The arguments of parts in a row. -/
def spelling (parts : List Part) : List Text := parts.flatMap Part.words

/-- The switches that stand somewhere among the parts. -/
def switches (parts : List Part) : List Text := parts.filterMap Part.switch?

/-- The options that parts settle: the last origin and the last program count. -/
def settled (parts : List Part) : Options where
  settings :=
    { indirect :=
        if (switches parts).contains "--legacy-indirect".toList then .legacy else .canonical
      trace := (switches parts).contains "--trace".toList }
  batch := (switches parts).contains "--run".toList
  origin := (parts.filterMap Part.origin?).getLast?.getD Memory.programOrigin
  program := (parts.filterMap Part.program?).getLast?.getD []

/-- The names of all options. -/
def optionNames : List Text := ["-h", "--help", "--origin"].map String.toList ++ switchNames

/-- Whether an argument list decides with its first part, whatever comes behind, and the status and
the answer that it decides for. -/
inductive Decides : List Text → Nat → Answer → Prop
  | help {argument : Text} (hhelp : argument = "-h".toList ∨ argument = "--help".toList)
      (rest : List Text) : Decides (argument :: rest) 0 { out := usage }
  | missingOrigin :
      Decides ["--origin".toList] 1 { err := "[args] --origin needs a hex address\n".toList }
  | badOrigin {value : Text} (hvalue : Hex.address? value = none) (rest : List Text) :
      Decides ("--origin".toList :: value :: rest) 1
        { err := "[args] --origin needs a hex address\n".toList }
  | unknownOption {argument : Text} (hdash : argument.head? = some '-')
      (hunknown : argument ∉ optionNames) (rest : List Text) :
      Decides (argument :: rest) 1
        { out := usage
          err := "[args] unknown option ".toList ++ quoted argument ++ ['\n'] }

/-- Whether an argument list consists of parts, up to one that decides or to the end. -/
def IsCut (arguments : List Text) : Prop :=
  ∃ parts rest, arguments = spelling parts ++ rest ∧
    (rest = [] ∨ ∃ status answer, Decides rest status answer)

theorem IsCut.cons {arguments : List Text} (part : Part) :
    IsCut arguments → IsCut (part.words ++ arguments) := by
  rintro ⟨parts, rest, rfl, hrest⟩
  exact ⟨part :: parts, rest, by simp [spelling], hrest⟩

theorem Decides.isCut {arguments : List Text} {status : Nat} {answer : Answer}
    (hdecides : Decides arguments status answer) : IsCut arguments :=
  ⟨[], arguments, rfl, .inr ⟨status, answer, hdecides⟩⟩

/-- Every argument list is cut like that. -/
theorem isCut (arguments : List Text) : IsCut arguments := by
  -- The options do not matter, but they change along the recursion of `judge`.
  generalize hoptions : ({} : Options) = options
  clear hoptions
  fun_induction judge options arguments with
  | case1 => exact ⟨[], [], rfl, .inl rfl⟩
  | case2 options argument rest hhelp => exact (Decides.help hhelp rest).isCut
  | case3 | case4 | case5 =>
    next ih => exact ih.cons (.switch _ (by decide))
  | case6 => exact Decides.missingOrigin.isCut
  | case7 options value rest origin hvalue =>
    next ih => exact ih.cons (.origin value origin hvalue)
  | case8 options value rest hvalue => exact (Decides.badOrigin hvalue rest).isCut
  | case9 options argument rest hhelp hlegacy htrace hrun horigin hdash =>
    have hunknown : argument ∉ optionNames := by
      simp only [optionNames, switchNames, List.map_cons, List.map_nil, List.cons_append,
        List.nil_append, List.mem_cons, List.not_mem_nil, or_false]
      tauto
    exact (Decides.unknownOption hdash hunknown rest).isCut
  | case10 options argument rest hhelp hlegacy htrace hrun horigin hproper ih =>
    exact ih.cons (.program argument hproper)

/-! ### Judging -/

/-- Options with parts added to them. -/
def Options.withParts (options : Options) (parts : List Part) : Options :=
  { options.withSwitches (switches parts) with
    origin := (parts.filterMap Part.origin?).getLast?.getD options.origin
    program := (parts.filterMap Part.program?).getLast?.getD options.program }

theorem Options.withParts_nil (options : Options) : options.withParts [] = options := by
  rw [withParts, switches, List.filterMap_nil, withSwitches_nil]
  rfl

theorem Options.withParts_empty (parts : List Part) :
    ({} : Options).withParts parts = settled parts := by
  simp only [withParts, withSwitches, settled, List.contains_eq_mem, decide_eq_true_eq,
    Bool.or_false]

section Single

variable (options : Options)

theorem Options.withParts_origin {value : Text} {address : UInt16}
    (reads : Hex.address? value = some address) :
    options.withParts [.origin value address reads] = { options with origin := address } := by
  conv => rhs; rw [← options.withSwitches_nil]
  rfl

theorem Options.withParts_program {path : Text} (proper : path.head? ≠ some '-') :
    options.withParts [.program path proper] = { options with program := path } := by
  conv => rhs; rw [← options.withSwitches_nil]
  rfl

/-- Parts may be added one after the other. -/
theorem Options.withParts_cons (part : Part) (parts : List Part) :
    options.withParts (part :: parts) = (options.withParts [part]).withParts parts := by
  cases part with
  | switch name known =>
    simp only [withParts, switches, List.filterMap_cons, Part.switch?, Part.origin?, Part.program?]
    rw [options.withSwitches_cons]
    rfl
  | origin value address reads =>
    rw [withParts_origin]
    simp only [withParts, switches, List.filterMap_cons, Part.switch?, Part.origin?, Part.program?,
      List.getLast?_cons, Option.getD_some]
    rfl
  | program path proper =>
    rw [withParts_program]
    simp only [withParts, switches, List.filterMap_cons, Part.switch?, Part.origin?, Part.program?,
      List.getLast?_cons, Option.getD_some]
    rfl

/-- A part in front of other arguments is added to the options. -/
theorem judge_words_append (part : Part) (rest : List Text) :
    judge options (part.words ++ rest) = judge (options.withParts [part]) rest := by
  cases part with
  | switch name known => exact judge_switch known options rest
  | origin value address reads =>
    rw [Options.withParts_origin]
    exact judge_origin reads options rest
  | program path proper =>
    rw [Options.withParts_program]
    exact judge_path proper options rest

end Single

/-- Parts in front of other arguments are added to the options. -/
theorem judge_spelling (options : Options) (parts : List Part) (rest : List Text) :
    judge options (spelling parts ++ rest) = judge (options.withParts parts) rest := by
  induction parts generalizing options with
  | nil => rw [Options.withParts_nil]; rfl
  | cons part parts ih =>
    have hspelling : spelling (part :: parts) ++ rest = part.words ++ (spelling parts ++ rest) := by
      rw [spelling, List.flatMap_cons, List.append_assoc]
      rfl
    rw [hspelling, judge_words_append, ih, ← Options.withParts_cons]

/-! ### Starting -/

section Start

variable {files : Files}

/-- What decides does so whatever the options are by then. -/
theorem start_of_decides (parts : List Part) {rest : List Text} {status : Nat} {answer : Answer}
    (hdecides : Decides rest status answer) :
    start files (spelling parts ++ rest) = .exit status answer := by
  unfold start
  rw [judge_spelling]
  generalize ({} : Options).withParts parts = options
  rw [judge.eq_def]
  cases hdecides with
  | help hhelp rest =>
    dsimp only
    rw [if_pos hhelp]
  | missingOrigin =>
    dsimp only
    rw [if_neg (by decide), if_neg (by decide), if_neg (by decide), if_neg (by decide), if_pos rfl]
  | badOrigin hvalue rest =>
    dsimp only
    rw [if_neg (by decide), if_neg (by decide), if_neg (by decide), if_neg (by decide), if_pos rfl,
      hvalue]
  | @unknownOption argument hdash hunknown rest =>
    have hother {name : Text} (hname : name ∈ optionNames) : argument ≠ name := by
      rintro rfl
      exact hunknown hname
    dsimp only
    rw [if_neg (not_or.mpr ⟨hother (by decide), hother (by decide)⟩), if_neg (hother (by decide)),
      if_neg (hother (by decide)), if_neg (hother (by decide)), if_neg (hother (by decide)),
      if_pos hdash]

theorem judge_spelling_eq_start (parts : List Part) :
    judge {} (spelling parts) = .start (settled parts) := by
  have hjudge := judge_spelling {} parts []
  rwa [List.append_nil, Options.withParts_empty] at hjudge

theorem start_of_prepare_error {parts : List Part} {complaints : List Reply}
    (hprepare : prepare files (settled parts) = .error complaints) :
    start files (spelling parts) = .exit 1 (Answer.ofReplies complaints) := by
  unfold start
  rw [judge_spelling_eq_start]
  dsimp only
  rw [hprepare]

section Complaints

variable {options : Options}

/-- A complaint about the program names its file too; there is none about the demo, which has no
file and fits. -/
theorem prepare_of_error {complaint : Reply}
    (himage : (programImage files options).bind (loadImage { settings := options.settings }) =
      .error complaint) :
    prepare files options = .error [complaint, .loadFailed options.program] := by
  cases hnamed : options.program.isEmpty with
  | true =>
    rw [programImage_of_provides (.demo (List.isEmpty_iff.mp hnamed)), Except.bind, loadImage,
      Machine.loadProgram_eq _ (by decide)] at himage
    cases himage
  | false =>
    unfold prepare
    unfold programImage at himage
    rw [hnamed] at himage ⊢
    dsimp only
    rw [himage]
    rfl

theorem prepare_of_unreadable {complaint : Reply}
    (himage : programImage files options = .error complaint) :
    prepare files options = .error [complaint, .loadFailed options.program] :=
  prepare_of_error (by rw [himage]; rfl)

theorem prepare_of_large {image : Image} (himage : programImage files options = .ok image)
    (hlarge : 65536 < image.origin.toNat + image.bytes.length) :
    prepare files options =
      .error [.doesNotFit ⟨image.bytes.length, image.origin⟩, .loadFailed options.program] := by
  refine prepare_of_error ?_
  rw [himage, Except.bind, loadImage, Machine.loadProgram_eq_error _ (Nat.not_le_of_lt hlarge)]

end Complaints

/-- A complaint about a program, and the line that names its file, with nothing on the output. -/
theorem ofReplies_loadFailed {complaint : Reply} (hdiagnostic : complaint.isDiagnostic = true)
    (path : Text) :
    Answer.ofReplies [complaint, .loadFailed path] =
      { err := complaint.text ++ ("[load] failed to load ".toList ++ quoted path ++ ['\n']) } := by
  have hlast : (Reply.loadFailed path).isDiagnostic = true := rfl
  simp [Answer.ofReplies, hdiagnostic, hlast, Reply.text, unlines]

/-! ### Batch runs -/

/-- What the end of a batch run comes to: the status by the state of the machine, its registers on
the output, and the fault on the diagnostics if there is one. -/
structure BatchEnds (machine final : Machine) (status : Nat) (answer : Answer) : Prop where
  status_eq : status = 0 ∨ status = 2
  halted_iff : status = 0 ↔ final.state = .halted
  faulted_iff : status = 2 ↔ final.state = .faulted
  out : answer.out = registerLine final ++ ['\n']
  err : ∃ count outcome, machine.StopsAfter count outcome final ∧
    answer.err = match outcome.fault? with
      | some fault => "[cpu] ".toList ++ fault.message ++ ['\n']
      | none => []

theorem batchEnd_ok (count : UInt64) (final : Machine) :
    batchEnd (.ok count, final) = (0, { out := registerLine final ++ ['\n'] }) := by
  simp [batchEnd, Answer.ofReplies, Reply.isDiagnostic, Reply.text, unlines]

theorem batchEnd_error (fault : Fault) (final : Machine) :
    batchEnd (.error fault, final) =
      (2, {
        out := registerLine final ++ ['\n']
        err := "[cpu] ".toList ++ fault.message ++ ['\n'] }) := by
  simp [batchEnd, Answer.ofReplies, List.filter_cons, Reply.isDiagnostic, Reply.text, unlines]

theorem batchEnds_of_run {machine final : Machine} (hrunning : machine.state = .running)
    {budget : Nat} {result : Except Fault UInt64}
    (hrun : machine.run budget = some (result, final)) :
    BatchEnds machine final (batchEnd (result, final)).1 (batchEnd (result, final)).2 := by
  obtain ⟨count, -, outcome, hstops, rfl⟩ := (Machine.run_eq_some_iff hrunning).mp hrun
  have hstate := hstops.state_eq
  cases outcome with
  | completed => exact absurd rfl hstops.incomplete
  | halted =>
    have hhalted : final.state = .halted := hstate
    rw [Outcome.result, batchEnd_ok]
    exact {
      status_eq := .inl rfl
      halted_iff := iff_of_true rfl hhalted
      faulted_iff := by simp [hhalted]
      out := rfl
      err := ⟨count, .halted, hstops, rfl⟩ }
  | unsupported fault =>
    have hfaulted : final.state = .faulted := hstate
    rw [Outcome.result, batchEnd_error]
    exact {
      status_eq := .inr rfl
      halted_iff := by simp [hfaulted]
      faulted_iff := iff_of_true rfl hfaulted
      out := rfl
      err := ⟨count, .unsupported fault, hstops, rfl⟩ }

/-- A batch run begins with a machine that has been reset. -/
theorem running_of_start_batch {arguments : List Text} {machine : Machine}
    (hstart : start files arguments = .batch machine) : machine.state = .running := by
  unfold start at hstart
  split at hstart
  · cases hstart
  · cases hstart
  · cases hstart
  · next options _ =>
    split at hstart
    · cases hstart
    · next ready hprepare =>
      split at hstart
      · cases hstart
        unfold prepare at hprepare
        dsimp only at hprepare
        split at hprepare
        · cases hprepare
          rfl
        · cases hprepare
      · cases hstart

theorem transcript_of_batch {arguments : List Text} {machine : Machine}
    (hstart : start files arguments = .batch machine) {budget : Nat}
    {ended : Except Fault UInt64 × Machine} (hrun : machine.run budget = some ended)
    (lines : List Text) :
    transcript budget files arguments lines =
      some ((batchEnd ended).1, [(batchEnd ended).2]) := by
  unfold transcript
  rw [hstart]
  dsimp only
  rw [hrun]
  rfl

/-! ### The outcome -/

/-- Whether the program ends with a status and an answer, and reads no lines. -/
def Exits (files : Files) (arguments : List Text) (status : Nat) (answer : Answer) : Prop :=
  ∀ budget lines, transcript budget files arguments lines = some (status, [answer])

theorem exits_of_start {arguments : List Text} {status : Nat} {answer : Answer}
    (hstart : start files arguments = .exit status answer) :
    Exits files arguments status answer := by
  intro budget lines
  rw [transcript, hstart]

/-- What arguments come to, given the files that there are. -/
structure OutcomeFollows (files : Files) : Prop where
  /-- Each argument list consists of parts, up to the first one that decides or to the end. -/
  cut : ∀ arguments, IsCut arguments
  /-- What decides does so before anything is loaded, whatever the files are. -/
  decided : ∀ parts rest status answer, Decides rest status answer →
    Exits files (spelling parts ++ rest) status answer
  /-- The files provide the program or it cannot be read, but for one for which there may be no
  room. -/
  judged : ∀ parts, (∃ image, Provides files (settled parts) image) ∨
    (∃ format error, Unreadable files (settled parts) format error) ∨
      NeedsRoom files (settled parts)
  /-- A program whose file cannot be read or parsed is refused. -/
  unreadable : ∀ parts format error, Unreadable files (settled parts) format error →
    Exits files (spelling parts) 1
      { err := error.message format ++
          ("[load] failed to load ".toList ++ quoted (settled parts).program ++ ['\n']) }
  /-- So is one that does not fit. -/
  large : ∀ parts image, Provides files (settled parts) image →
    65536 < image.origin.toNat + image.bytes.length →
      Exits files (spelling parts) 1
        { err := (Memory.LoadError.mk image.bytes.length image.origin).message ++
            ("[load] failed to load ".toList ++ quoted (settled parts).program ++ ['\n']) }
  /-- Every other program is loaded and started. -/
  loaded : ∀ parts image, Provides files (settled parts) image →
    image.origin.toNat + image.bytes.length ≤ 65536 →
      let machine := (({ settings := (settled parts).settings } : Machine).withProgram image.bytes
        image.origin).reset
      start files (spelling parts) =
        if (settled parts).batch then .batch machine else .monitor { machine }
  /-- A batch run that ends says how. -/
  ended : ∀ arguments machine, start files arguments = .batch machine →
    ∀ budget lines result final, machine.run budget = some (result, final) →
      ∃ status answer, transcript budget files arguments lines = some (status, [answer]) ∧
        BatchEnds machine final status answer
  /-- The order of the origins among themselves matters, and that of the programs, but no other. -/
  reordered : ∀ first second : List Part, first.Perm second →
    first.filterMap Part.origin? = second.filterMap Part.origin? →
    first.filterMap Part.program? = second.filterMap Part.program? →
      start files (spelling first) = start files (spelling second)

theorem settled_eq_of_perm {first second : List Part} (hperm : first.Perm second)
    (horigins : first.filterMap Part.origin? = second.filterMap Part.origin?)
    (hprograms : first.filterMap Part.program? = second.filterMap Part.program?) :
    settled first = settled second := by
  have hswitches (name : Text) : (switches first).contains name = (switches second).contains name :=
    (hperm.filterMap _).contains_eq
  simp only [settled, hswitches, horigins, hprograms]

/-- The outcome of the command line, from the arguments to the status and the words at the end, for
all argument lists and all files. -/
theorem outcome_of_arguments (files : Files) : OutcomeFollows files := by
  constructor
  case cut => exact isCut
  case decided =>
    intro parts rest status answer hdecides
    exact exits_of_start (start_of_decides parts hdecides)
  case judged => exact fun parts ↦ provides_or_unreadable files (settled parts)
  case unreadable =>
    intro parts format error hunreadable
    have hstart := start_of_prepare_error
      (prepare_of_unreadable (programImage_of_unreadable hunreadable))
    rw [ofReplies_loadFailed rfl] at hstart
    exact exits_of_start hstart
  case large =>
    intro parts image hprovides hlarge
    have hstart := start_of_prepare_error
      (prepare_of_large (programImage_of_provides hprovides) hlarge)
    rw [ofReplies_loadFailed rfl] at hstart
    exact exits_of_start hstart
  case loaded =>
    intro parts image hprovides hfits
    exact start_of_prepare (judge_spelling_eq_start parts)
      (prepare_of_programImage (programImage_of_provides hprovides) hfits)
  case ended =>
    intro arguments machine hstart budget lines result final hrun
    exact ⟨_, _, transcript_of_batch hstart hrun lines,
      batchEnds_of_run (running_of_start_batch hstart) hrun⟩
  case reordered =>
    intro first second hperm horigins hprograms
    unfold start
    rw [judge_spelling_eq_start, judge_spelling_eq_start,
      settled_eq_of_perm hperm horigins hprograms]

/-- An origin takes the next argument for its value, even the name of an option. -/
example : start files (["--trace", "--origin", "--run", "face"].map String.toList) =
    .exit 1 { err := "[args] --origin needs a hex address\n".toList } :=
  rfl

end Start

end CommandLine

end Mos6502
