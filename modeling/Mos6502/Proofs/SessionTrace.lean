import Mos6502.CommandLine
import Mos6502.Proofs.TraceInvariant

/-!
The trace at the prompts of the monitor. `Session.afterLines` is the session at the prompt behind
lines that were answered. A session starts with an intact trace (`CommandLine.intactTrace_start`),
and every command keeps it (`Session.intactTrace_respond`): commands that change registers or switch
the trace off forget the frames, and all other ones step, or leave alone what the frames tell of.
`CommandLine.trace_intact_at_prompts` takes this to all prompts.
-/

set_option autoImplicit false
set_option relaxedAutoImplicit false

namespace Mos6502

namespace Session

/-! ### Prompts -/

/-- The session at the prompt behind lines, each answered with the files that there are by then.
There is none if the session was over before. -/
def afterLines (session : Session) (typed : List (Files × Text)) : Option Session :=
  typed.foldlM (fun session (files, line) ↦ (session.answer files line).2) session

theorem afterLines_cons (session : Session) (files : Files) (line : Text)
    (rest : List (Files × Text)) :
    session.afterLines ((files, line) :: rest) =
      (session.answer files line).2.bind (·.afterLines rest) :=
  List.foldlM_cons

/-! ### Commands -/

section Commands

variable {session : Session} (hintact : session.machine.IntactTrace)
include hintact

theorem intactTrace_place (format : FileFormat) (path : Text) (base : UInt16)
    (reading : Reading (List UInt8)) :
    (session.place format path base reading).2.machine.IntactTrace := by
  unfold place
  split
  · exact hintact
  · split
    · exact hintact
    · exact hintact.withMemory _

theorem intactTrace_placeDump (path : Text) (reading : Reading Image) :
    (session.placeDump path reading).2.machine.IntactTrace := by
  unfold placeDump
  split
  · exact hintact
  · dsimp only
    split
    · exact hintact
    · next machine hload =>
      exact hintact.loadProgram hload

theorem intactTrace_loadDemo : session.loadDemo.2.machine.IntactTrace := by
  have hblank := hintact.withMemory Memory.blank
  unfold loadDemo
  dsimp only
  split
  · exact hblank
  · next machine hload => exact (hblank.loadProgram hload).reset

theorem intactTrace_setTrace (on : Bool) : (session.setTrace on).machine.IntactTrace := by
  cases on with
  | true => exact hintact.withTrace
  | false => exact .of_empty hintact.limit rfl

/-- Every command keeps the trace intact. -/
theorem intactTrace_respond (files : Files) (command : Command) :
    (session.respond files command).2.machine.IntactTrace := by
  cases command with
  | nothing | quit | help | registers | dump | addBreakpoint | listBreakpoints | clearBreakpoints
  | clearBreakpoint | showFrames | disassemble => exact hintact
  | step => exact hintact.step
  | run count => exact hintact.runUntil session.breakpoints count
  | go => exact hintact.runUntil session.breakpoints watchdogLimit
  | write | setResetVector => exact hintact.withMemory _
  | setTrace on => exact intactTrace_setTrace hintact on
  | setIndirect rule => exact hintact.withIndirect rule
  | reset => exact hintact.reset
  | loadBinary | loadHexBytes => exact intactTrace_place hintact _ _ _ _
  | loadDump => exact intactTrace_placeDump hintact _ _
  | demo => exact intactTrace_loadDemo hintact

/-- Every line that is answered keeps the trace intact. -/
theorem intactTrace_answer {files : Files} {line : Text} {next : Session}
    (hnext : (session.answer files line).2 = some next) : next.machine.IntactTrace := by
  unfold answer at hnext
  split at hnext
  · cases hnext
    exact hintact
  · cases hnext
  · next command _ _ =>
    cases hnext
    exact intactTrace_respond hintact files command

end Commands

theorem intactTrace_afterLines {session prompted : Session}
    (hintact : session.machine.IntactTrace) {typed : List (Files × Text)}
    (hprompted : session.afterLines typed = some prompted) : prompted.machine.IntactTrace := by
  induction typed generalizing session with
  | nil =>
    cases hprompted
    exact hintact
  | cons entry rest ih =>
    obtain ⟨files, line⟩ := entry
    rw [afterLines_cons, Option.bind_eq_some_iff] at hprompted
    obtain ⟨next, hnext, hrest⟩ := hprompted
    exact ih (intactTrace_answer hintact hnext) hrest

end Session

namespace CommandLine

/-! ### The start -/

/-- No option changes the limit of frames. -/
theorem traceLimit_judge {options final : Options} {arguments : List Text}
    (hjudge : judge options arguments = .start final) :
    final.settings.traceLimit = options.settings.traceLimit := by
  fun_induction judge options arguments with
  | case1 =>
    cases hjudge
    rfl
  | case2 | case6 | case8 | case9 => cases hjudge
  | case3 | case4 | case5 | case7 | case10 =>
    next ih => exact ih hjudge

theorem intactTrace_loadImage {machine loaded : Machine} (hintact : machine.IntactTrace)
    {image : Except Reply Image} (hload : image.bind (loadImage machine) = .ok loaded) :
    loaded.IntactTrace := by
  cases image with
  | error complaint => cases hload
  | ok image =>
    rw [Except.bind, loadImage] at hload
    split at hload
    · next machine hprogram =>
      cases hload
      exact hintact.loadProgram hprogram
    · cases hload

/-- A machine starts with an empty timeline. -/
theorem intactTrace_prepare {files : Files} {options : Options} {machine : Machine}
    (hlimit : options.settings.traceLimit = 4096)
    (hprepare : prepare files options = .ok machine) : machine.IntactTrace := by
  unfold prepare at hprepare
  dsimp only at hprepare
  split at hprepare
  · next loaded hloaded =>
    cases hprepare
    exact (intactTrace_loadImage (.of_empty hlimit rfl) hloaded).reset
  · cases hprepare

theorem intactTrace_start {files : Files} {arguments : List Text} {session : Session}
    (hstart : start files arguments = .monitor session) : session.machine.IntactTrace := by
  unfold start at hstart
  split at hstart
  · cases hstart
  · cases hstart
  · cases hstart
  · next options hjudge =>
    have hlimit : options.settings.traceLimit = 4096 := traceLimit_judge hjudge
    split at hstart
    · cases hstart
    · next machine hprepare =>
      split at hstart
      · cases hstart
      · cases hstart
        exact intactTrace_prepare hlimit hprepare

/-- At every prompt of the monitor the trace is intact, whatever the arguments, the files and the
lines that are typed. -/
theorem trace_intact_at_prompts (files : Files) (arguments : List Text) (session : Session)
    (hstart : start files arguments = .monitor session) (typed : List (Files × Text))
    (prompted : Session) (hprompted : session.afterLines typed = some prompted) :
    prompted.machine.IntactTrace :=
  Session.intactTrace_afterLines (intactTrace_start hstart) hprompted

/-- The demo with a trace: after three instructions the next opcode is overwritten by one that
stands for no instruction, and the run that follows comes upon it. -/
theorem trace_intact_at_prompts_of_overwritten_opcode :
    let files : Files := fun _ ↦ none
    let lines := ["r 3", "w 8008 02", "mode legacy", "g"].map String.toList
    ∃ session prompted, start files ["--trace".toList] = .monitor session ∧
      session.afterLines (lines.map (files, ·)) = some prompted ∧
      prompted.machine.IntactTrace ∧
      prompted.machine.timeline.toList.map Frame.opcode = [0xA9, 0x8D, 0x6D, 0x02] ∧
      prompted.machine.state = .faulted := by
  intro files lines
  have hrun : (match start files ["--trace".toList] with
      | .monitor session => (session.afterLines (lines.map (files, ·))).any fun prompted ↦
          prompted.machine.timeline.toList.map Frame.opcode = [0xA9, 0x8D, 0x6D, 0x02] ∧
            prompted.machine.state = .faulted
      | _ => false) = true := by
    decide +kernel
  split at hrun
  · next session hstart =>
    obtain ⟨prompted, hprompted, hfacts⟩ := (Option.any_eq_true _ _).mp hrun
    exact ⟨session, prompted, hstart, hprompted,
      trace_intact_at_prompts files _ session hstart _ prompted hprompted,
      of_decide_eq_true hfacts⟩
  · cases hrun

end CommandLine

end Mos6502
