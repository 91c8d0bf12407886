import Mos6502.Monitor.Session
import Mos6502.Proofs.DumpRoundTrip

/-!
Commands that fail. An answer tells of a failure by the way a line begins
(`Text.TellsFailure`): a line was refused, a file could not be used, or an image does not fit. The
replies that tell of something that was done each are one line, which begins otherwise
(`Reply.announces_of_tellsDone`), and a command that changes the session gives no other replies
(`Session.respond_eq_or_tellsDone`). So an answer that tells of a failure leaves the session as it
was.

Commands that only show something leave it too (`Session.respond_of_shows`). A dump that was read
without error always fits, for its rows end at the last address at the latest; hence loading one
fails only if it cannot be parsed. `Session.changes_nothing_on_failure` puts this together for
every line that is typed.
-/

set_option autoImplicit false
set_option relaxedAutoImplicit false

namespace Mos6502

/-! ### Lines that tell of a failure -/

/-- How the lines begin that tell of a failure. -/
def failureMarks : List Text :=
  ["usage: ", "Unknown command", "[loadbin] failed to read ", "[loadhex] failed to read ",
    "[loaddump] failed to parse ", "[bus] program of "].map String.toList

/-- Whether a text has a line that tells of a failure. -/
def Text.TellsFailure (text : Text) : Prop :=
  ∃ line ∈ text.lines, ∃ mark ∈ failureMarks, mark <+: line

/-- Whether an answer tells of a failure, in the output or in the diagnostics. -/
def Answer.TellsFailure (answer : Answer) : Prop :=
  answer.out.TellsFailure ∨ answer.err.TellsFailure

instance : DecidablePred Text.TellsFailure := fun _ ↦ inferInstanceAs (Decidable (∃ _ ∈ _, _))

instance : DecidablePred Answer.TellsFailure := fun _ ↦ inferInstanceAs (Decidable (_ ∨ _))

/-- Whether a reply is one line that does not tell of a failure. -/
def Reply.Announces (reply : Reply) : Prop :=
  ∃ line, reply.text = line ++ ['\n'] ∧ '\n' ∉ line ∧ ∀ mark ∈ failureMarks, ¬mark <+: line

/-- A line in front of a text matters only if it tells of a failure itself. -/
theorem Text.tellsFailure_append_newline {line rest : Text} (hline : '\n' ∉ line) :
    (line ++ '\n' :: rest).TellsFailure ↔
      (∃ mark ∈ failureMarks, mark <+: line) ∨ rest.TellsFailure := by
  have hlines : (line ++ '\n' :: rest).lines = line :: rest.lines := by
    refine pieces_append _ line '\n' rest (fun character hmem ↦ ?_) rfl
    exact beq_eq_false_iff_ne.mpr fun heq ↦ hline (heq ▸ hmem)
  unfold TellsFailure
  rw [hlines, List.exists_mem_cons_iff]

/-- Replies that tell of no failure add none to a text. -/
theorem Text.not_tellsFailure_of_announces {replies : List Reply}
    (hreplies : ∀ reply ∈ replies, reply.Announces) {rest : Text} (hrest : ¬rest.TellsFailure) :
    ¬Text.TellsFailure (replies.flatMap Reply.text ++ rest) := by
  induction replies with
  | nil => exact hrest
  | cons reply replies ih =>
    rw [List.forall_mem_cons] at hreplies
    obtain ⟨line, htext, hline, hmarks⟩ := hreplies.1
    rw [List.flatMap_cons, htext, List.append_assoc, List.append_assoc, List.singleton_append,
      tellsFailure_append_newline hline]
    rintro (⟨mark, hmark, hstarts⟩ | hlater)
    · exact hmarks mark hmark hstarts
    · exact ih hreplies.2 hlater

theorem Answer.not_tellsFailure_of_announces {replies : List Reply}
    (hreplies : ∀ reply ∈ replies, reply.Announces) :
    ¬(Answer.ofReplies replies ++ Session.prompt).TellsFailure := by
  have hkept (keep : Reply → Bool) : ∀ reply ∈ replies.filter keep, reply.Announces :=
    fun reply hmem ↦ hreplies reply (List.mem_of_mem_filter hmem)
  have hout : ¬Session.prompt.out.TellsFailure := by decide
  have herr : ¬Session.prompt.err.TellsFailure := by decide
  rintro (hfailure | hfailure)
  · exact Text.not_tellsFailure_of_announces (hkept _) hout hfailure
  · exact Text.not_tellsFailure_of_announces (hkept _) herr hfailure

/-! ### Replies that tell of something done -/

theorem newline_notMem_upperCase_byte (byte : UInt8) : '\n' ∉ Hex.upperCase (Hex.byte byte) := by
  have hdigit : ∀ digit : Fin 16, '\n' ≠ (Nat.digitChar digit).toUpper := by decide +kernel
  obtain ⟨high, low, hbyte, -⟩ := Hex.exists_byte_eq byte
  rw [hbyte]
  intro hmem
  exact (List.mem_pair.mp hmem).elim (hdigit high) (hdigit low)

theorem newline_notMem_upperCase_word (address : UInt16) :
    '\n' ∉ Hex.upperCase (Hex.word address) := by
  rw [Hex.word, Hex.upperCase, List.map_append, List.mem_append, not_or]
  exact ⟨newline_notMem_upperCase_byte _, newline_notMem_upperCase_byte _⟩

theorem newline_notMem_digits (status : Status) : '\n' ∉ status.digits := by
  intro hmem
  obtain ⟨flag, -, hflag⟩ := List.mem_map.mp hmem
  cases flag <;> exact absurd hflag (by decide)

/-- The line of the registers begins with the program counter, and is one line. -/
theorem registerLine_eq (machine : Machine) :
    ∃ rest, registerLine machine = "PC=".toList ++ rest ∧ '\n' ∉ rest := by
  have hstate : '\n' ∉ machine.state.describe.toList := by
    cases machine.state <;> decide
  unfold registerLine
  dsimp only
  simp only [List.append_assoc, List.append_cancel_left_eq, exists_eq_left']
  simp only [List.mem_append, not_or, newline_notMem_word, newline_notMem_byte,
    newline_notMem_digits, newline_notMem_decimal, hstate, not_false_eq_true, true_and, and_true]
  decide

namespace Reply

/-- Whether a reply tells of something that was done. -/
def tellsDone : Reply → Bool
  | .registers _ | .breakExecuted _ | .breakpointHit _ | .watchdog _ | .wrote _ _
  | .breakpointAdded _ | .breakpointsCleared | .breakpointCleared _ | .traceSet _
  | .indirectSet _ | .resetDone | .loaded _ _ _ | .resetVectorSet _ | .demoLoaded _
  | .fault _ => true
  | .help | .refused _ | .dump _ _ _ | .breakpointList _ | .noFrames | .frames _ | .listing _ _ _
  | .unreadable _ _ | .readFailed _ _ | .doesNotFit _ | .loadFailed _ => false

/-- A line that begins in another way tells of no failure. -/
theorem announces_of_front {reply : Reply} (front rest : Text)
    (htext : reply.text = (front ++ rest) ++ ['\n']) (hrest : '\n' ∉ rest)
    (hfront : '\n' ∉ front ∧ ∀ mark ∈ failureMarks, ¬mark <+: front ∧ ¬front <+: mark) :
    reply.Announces := by
  refine ⟨front ++ rest, htext, ?_, fun mark hmark hstarts ↦ ?_⟩
  · rw [List.mem_append, not_or]
    exact ⟨hfront.1, hrest⟩
  · rcases List.prefix_or_prefix_of_prefix hstarts (List.prefix_append front rest) with h | h
    · exact (hfront.2 mark hmark).1 h
    · exact (hfront.2 mark hmark).2 h

/-- A reply that tells of something done tells of no failure. -/
theorem announces_of_tellsDone {reply : Reply} (hdone : reply.tellsDone = true) :
    reply.Announces := by
  cases reply with
  | registers machine =>
    obtain ⟨rest, hline, hrest⟩ := registerLine_eq machine
    refine announces_of_front "PC=".toList rest ?_ hrest (by decide)
    rw [text, hline, unlines, List.flatMap_singleton]
  | breakExecuted address =>
    refine announces_of_front "BRK at ".toList (Hex.word address ++ ", halted".toList) ?_ ?_
      (by decide)
    · rw [text, List.append_assoc, unlines, List.flatMap_singleton]
    · rw [List.mem_append, not_or]
      exact ⟨newline_notMem_word address, by decide⟩
  | breakpointHit address =>
    exact announces_of_front "* Breakpoint hit at PC=".toList (Hex.word address)
      (List.flatMap_singleton _ _) (newline_notMem_word address) (by decide)
  | watchdog executed =>
    refine announces_of_front "* watchdog: stopped after ".toList
      (decimal executed ++ " instructions without BRK".toList) ?_ ?_ (by decide)
    · rw [text, List.append_assoc, unlines, List.flatMap_singleton]
    · rw [List.mem_append, not_or]
      exact ⟨newline_notMem_decimal executed, by decide⟩
  | wrote address byte =>
    refine announces_of_front "Wrote ".toList
      (Hex.byte byte ++ " to [".toList ++ Hex.word address ++ [']']) ?_ ?_ (by decide)
    · simp only [text, List.append_assoc, unlines, List.flatMap_singleton]
    · simp only [List.mem_append, not_or]
      exact ⟨⟨⟨newline_notMem_byte byte, by decide⟩, newline_notMem_word address⟩, by decide⟩
  | breakpointAdded address =>
    exact announces_of_front "Breakpoint added at PC=".toList (Hex.word address)
      (List.flatMap_singleton _ _) (newline_notMem_word address) (by decide)
  | breakpointsCleared =>
    exact announces_of_front "Breakpoints cleared.".toList [] rfl (by decide) (by decide)
  | breakpointCleared address =>
    exact announces_of_front "Cleared ".toList (Hex.word address)
      (List.flatMap_singleton _ _) (newline_notMem_word address) (by decide)
  | traceSet on =>
    refine announces_of_front "Trace ".toList (if on then "on" else "off").toList
      (List.flatMap_singleton _ _) ?_ (by decide)
    cases on <;> decide
  | indirectSet rule =>
    refine announces_of_front "Indirect addressing: ".toList rule.name.toList
      (List.flatMap_singleton _ _) ?_ (by decide)
    cases rule <;> decide
  | resetDone => exact announces_of_front "Reset done.".toList [] rfl (by decide) (by decide)
  | loaded format size base =>
    refine announces_of_front ('[' :: format.tag.toList ++ "] loaded ".toList)
      (decimal size ++ loadedAt format base) ?_ ?_ ?_
    · simp only [text, List.append_assoc, unlines, List.flatMap_singleton]
    · rw [List.mem_append, not_or]
      refine ⟨newline_notMem_decimal size, ?_⟩
      unfold loadedAt
      simp only [List.mem_append, not_or]
      refine ⟨⟨by decide, newline_notMem_word base⟩, ?_⟩
      cases format <;> decide
    · cases format <;> decide
  | resetVectorSet address =>
    exact announces_of_front "[setrv] reset vector set to ".toList (Hex.word address)
      (List.flatMap_singleton _ _) (newline_notMem_word address) (by decide)
  | demoLoaded origin =>
    exact announces_of_front "[demo] loaded at ".toList (Hex.word origin)
      (List.flatMap_singleton _ _) (newline_notMem_word origin) (by decide)
  | fault met =>
    refine announces_of_front "[cpu] ".toList met.message (List.flatMap_singleton _ _) ?_
      (by decide)
    unfold Fault.message
    simp only [List.mem_append, not_or]
    exact ⟨⟨⟨by decide, newline_notMem_upperCase_byte met.opcode⟩, by decide⟩,
      newline_notMem_upperCase_word met.address⟩
  | help | refused _ | dump _ _ _ | breakpointList _ | noFrames | frames _ | listing _ _ _
  | unreadable _ _ | readFailed _ _ | doesNotFit _ | loadFailed _ => cases hdone

end Reply

/-! ### Commands -/

/-- The commands that show something, by their names. -/
def showingNames : List String := ["p", "m", "d", "dis", "disasm", "bl", "t", "help", "h", "?"]

/-- Whether a command shows something and does nothing else. -/
def Command.shows : Command → Bool
  | .help | .registers | .dump _ _ | .listBreakpoints | .showFrames _ | .disassemble _ _ => true
  | _ => false

theorem Command.shows_of_orUsage {α : Type} {form : String} {argument : Option α}
    {make : α → Command} {command : Command} (hparse : orUsage form argument make = .ok command)
    (hmake : ∀ value, (make value).shows = true) : command.shows = true := by
  cases argument with
  | none => cases hparse
  | some value =>
    cases hparse
    exact hmake value

/-- Such a name gives such a command, whatever the arguments are. -/
theorem Command.shows_of_parseNamed {name : String} (hname : name ∈ showingNames)
    {arguments : List Text} {command : Command} (hparse : parseNamed name arguments = .ok command) :
    command.shows = true := by
  simp only [showingNames, List.mem_cons, List.not_mem_nil, or_false] at hname
  rcases hname with rfl | rfl | rfl | rfl | rfl | rfl | rfl | rfl | rfl | rfl
  -- A command with an address may be refused; the others are not.
  all_goals first
    | exact shows_of_orUsage hparse fun _ ↦ rfl
    | cases hparse
      rfl

theorem Command.parse_loadDump {line name path : Text} {arguments : List Text}
    (hwords : line.words = name :: path :: arguments)
    (hname : String.ofList (name.map Char.toLower) = "loaddump") :
    parse line = .ok (.loadDump path) := by
  unfold parse
  rw [hwords]
  dsimp only
  rw [hname]
  rfl

namespace Session

variable {files : Files} {session : Session}

theorem respond_of_shows {command : Command} (hshows : command.shows = true) :
    (session.respond files command).2 = session := by
  cases command <;> first | rfl | cases hshows

theorem tellsDone_step : ∀ reply ∈ session.step.1, reply.tellsDone = true := by
  unfold step
  split
  next outcome machine _ =>
    cases outcome with
    | none => simp [Reply.tellsDone]
    | some outcome => cases outcome <;> simp [Reply.tellsDone]

theorem tellsDone_run (limit : Nat) (watched : Bool) :
    ∀ reply ∈ (session.run limit watched).1, reply.tellsDone = true := by
  unfold run
  split
  next report machine _ =>
    obtain ⟨reason, executed, fault⟩ := report
    cases fault <;> cases reason <;> cases watched <;> simp [reportRun, Reply.tellsDone]

/-- A file that is not loaded changes nothing. -/
theorem place_eq_or_tellsDone (format : FileFormat) (path : Text) (base : UInt16)
    (reading : Reading (List UInt8)) :
    (session.place format path base reading).2 = session ∨
      ∀ reply ∈ (session.place format path base reading).1, reply.tellsDone = true := by
  unfold place
  split
  · exact .inl rfl
  · split
    · exact .inl rfl
    · exact .inr (by simp [Reply.tellsDone])

/-- A dump that is not loaded changes nothing. -/
theorem placeDump_eq_or_tellsDone (path : Text) (reading : Reading Image) :
    (session.placeDump path reading).2 = session ∨
      ∀ reply ∈ (session.placeDump path reading).1, reply.tellsDone = true := by
  unfold placeDump
  split
  · exact .inl rfl
  · dsimp only
    split
    · exact .inl rfl
    · exact .inr (by simp [Reply.tellsDone])

/-- The demo fits. -/
theorem loadDemo_eq (session : Session) :
    session.loadDemo =
      let blank := { session.machine with memory := Memory.blank }
      let machine := (blank.withProgram demoProgram Memory.programOrigin).reset
      ([.demoLoaded Memory.programOrigin, .registers machine], { session with machine }) := by
  unfold loadDemo
  dsimp only
  rw [Machine.loadProgram_eq _ (by decide)]

/-- A command that changes the session tells of nothing but what was done. -/
theorem respond_eq_or_tellsDone (files : Files) (session : Session) (command : Command) :
    (session.respond files command).2 = session ∨
      ∀ reply ∈ (session.respond files command).1, reply.tellsDone = true := by
  cases command with
  | nothing | quit | help | registers | dump _ _ | listBreakpoints | showFrames _
  | disassemble _ _ => exact .inl rfl
  | step => exact .inr tellsDone_step
  | run count => exact .inr (tellsDone_run count false)
  | go => exact .inr (tellsDone_run watchdogLimit true)
  | loadBinary path base => exact place_eq_or_tellsDone ..
  | loadHexBytes path base => exact place_eq_or_tellsDone ..
  | loadDump path => exact placeDump_eq_or_tellsDone ..
  | demo =>
    rw [respond, loadDemo_eq]
    exact .inr (by simp [Reply.tellsDone])
  | write _ _ | addBreakpoint _ | clearBreakpoints | clearBreakpoint _ | setTrace _
  | setIndirect _ | reset | setResetVector _ => exact .inr (by simp [respond, Reply.tellsDone])

/-- A dump that could be parsed is loaded. -/
theorem placeDump_of_fromFile {path : Text} {before image : Image}
    (hread : HexDump.fromFile files path before = ⟨image, none⟩) :
    session.placeDump path (HexDump.fromFile files path before) =
      ([.loaded .hexDump image.bytes.length image.origin],
        { session with machine := session.machine.withProgram image.bytes image.origin }) := by
  have hfits : image.origin.toNat + image.bytes.length ≤ 65536 := by
    unfold HexDump.fromFile at hread
    split at hread
    · cases hread
    · exact (HexDump.read_eq_iff.mp hread).fits
  rw [hread, placeDump]
  dsimp only
  rw [session.machine.loadProgram_eq hfits]

/-! ### Lines -/

/-- What is left alone when a line is typed. -/
structure LeavesAlone (files : Files) (session : Session) (line : Text) : Prop where
  /-- An answer that tells of a failure leaves the machine and the breakpoints as they were. -/
  failure : (session.answer files line).1.TellsFailure →
    (session.answer files line).2 = some session
  /-- So does a command that shows something, whatever its arguments are. -/
  showing : ∀ name arguments, line.words = name :: arguments →
    String.ofList (name.map Char.toLower) ∈ showingNames →
      (session.answer files line).2 = some session
  /-- A dump is not loaded if it cannot be parsed. -/
  rejected : ∀ name path arguments error, line.words = name :: path :: arguments →
    String.ofList (name.map Char.toLower) = "loaddump" →
      (HexDump.fromFile files path ⟨0, []⟩).error = some error →
        session.answer files line =
          ({ out := "[loaddump] failed to parse ".toList ++ quoted path ++ ['\n']
             err := error.message .hexDump } ++ prompt, some session)
  /-- It is loaded in all other cases. -/
  loaded : ∀ name path arguments image, line.words = name :: path :: arguments →
    String.ofList (name.map Char.toLower) = "loaddump" →
      HexDump.fromFile files path ⟨0, []⟩ = ⟨image, none⟩ →
        session.answer files line =
          ({ out := "[loaddump] loaded ".toList ++ decimal image.bytes.length ++
               " bytes at ".toList ++ Hex.word image.origin ++
                 ", reset vector updated\n".toList } ++ prompt,
            some { session with
              machine := session.machine.withProgram image.bytes image.origin })

theorem answer_of_parse {line : Text} {command : Command}
    (hparse : Command.parse line = .ok command) (hquit : command ≠ .quit) :
    session.answer files line =
      (Answer.ofReplies (session.respond files command).1 ++ prompt,
        some (session.respond files command).2) := by
  unfold answer
  rw [hparse]
  cases command with
  | quit => exact absurd rfl hquit
  | _ => rfl

/-- Nothing is changed by a line that is refused. -/
theorem answer_of_refused {line : Text} {refusal : Refusal}
    (hparse : Command.parse line = .error refusal) :
    session.answer files line = (Answer.ofReplies [.refused refusal] ++ prompt, some session) := by
  unfold answer
  rw [hparse]

theorem answer_of_quit {line : Text} (hparse : Command.parse line = .ok .quit) :
    session.answer files line = ({}, none) := by
  unfold answer
  rw [hparse]

/-- Whatever line is typed, a failure leaves the session as it was, and so does a command that shows
something. A dump is loaded unless it cannot be parsed. -/
theorem changes_nothing_on_failure (files : Files) (session : Session) (line : Text) :
    LeavesAlone files session line := by
  constructor
  case failure =>
    intro hfailure
    cases hparse : Command.parse line with
    | error refusal => rw [answer_of_refused hparse]
    | ok command =>
      by_cases hquit : command = .quit
      · subst hquit
        rw [answer_of_quit hparse] at hfailure
        exact absurd hfailure (by decide)
      · rw [answer_of_parse hparse hquit] at hfailure ⊢
        rcases respond_eq_or_tellsDone files session command with hsame | hdone
        · exact congrArg some hsame
        · exact absurd hfailure (Answer.not_tellsFailure_of_announces fun reply hmem ↦
            Reply.announces_of_tellsDone (hdone reply hmem))
  case showing =>
    intro name arguments hwords hname
    cases hparse : Command.parse line with
    | error refusal => rw [answer_of_refused hparse]
    | ok command =>
      have hshows : command.shows = true := by
        unfold Command.parse at hparse
        rw [hwords] at hparse
        exact Command.shows_of_parseNamed hname hparse
      have hquit : command ≠ .quit := by
        rintro rfl
        cases hshows
      rw [answer_of_parse hparse hquit]
      exact congrArg some (respond_of_shows hshows)
  case rejected =>
    intro name path arguments error hwords hname herror
    rw [answer_of_parse (Command.parse_loadDump hwords hname) (by simp), respond, placeDump, herror]
    have hout : (Reply.unreadable .hexDump path).text =
        "[loaddump] failed to parse ".toList ++ quoted path ++ ['\n'] := by
      rw [Reply.text, unlines, List.flatMap_singleton]
      rfl
    have hsaid : Answer.ofReplies [.readFailed .hexDump error, .unreadable .hexDump path] =
        ⟨"[loaddump] failed to parse ".toList ++ quoted path ++ ['\n'],
          error.message .hexDump⟩ := by
      rw [Answer.ofReplies, Answer.mk.injEq]
      exact ⟨(List.append_nil _).trans hout, List.append_nil _⟩
    exact congrArg (· ++ prompt, some session) hsaid
  case loaded =>
    intro name path arguments image hwords hname hread
    rw [answer_of_parse (Command.parse_loadDump hwords hname) (by simp), respond,
      placeDump_of_fromFile hread]
    have hout : (Reply.loaded .hexDump image.bytes.length image.origin).text =
        "[loaddump] loaded ".toList ++ decimal image.bytes.length ++ " bytes at ".toList ++
          Hex.word image.origin ++ ", reset vector updated\n".toList := by
      have hfront : "[loaddump] loaded ".toList =
          '[' :: FileFormat.hexDump.tag.toList ++ "] loaded ".toList := by decide
      have hend : ", reset vector updated\n".toList =
          ", reset vector updated".toList ++ ['\n'] := by decide
      rw [hfront, hend]
      unfold Reply.text unlines loadedAt
      simp only [List.flatMap_singleton, List.append_assoc]
    have hsaid : Answer.ofReplies [.loaded .hexDump image.bytes.length image.origin] =
        { out := "[loaddump] loaded ".toList ++ decimal image.bytes.length ++
            " bytes at ".toList ++ Hex.word image.origin ++
              ", reset vector updated\n".toList } := by
      rw [Answer.ofReplies, Answer.mk.injEq]
      exact ⟨(List.append_nil _).trans hout, rfl⟩
    exact congrArg (· ++ prompt, _) hsaid

/-- Bytes may be given up at the last token, or have no room at the address. -/
example :
    let files : Files := fun path ↦ some (Source.ofBytes (Text.toBytes
      (if path = ['a'] then "A9 01\n8D 00 0x1g".toList else "A9 01".toList)))
    ∀ line ∈ ["loadhex a 8000", "loadhex b ffff", "w 8000 100"],
      (answer files { machine := {} } line.toList).1.TellsFailure := by
  decide +kernel

end Session

end Mos6502
