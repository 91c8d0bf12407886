import Mos6502.Interface
import Mos6502.Proofs.Stopping

/-!
What a request can do to a machine. It starts the machine anew or not (`Machine.restarted?`), and
then makes some number of steps; or it leaves the processor alone, with the frames that it has or
none at all (`Machine.LeavesProcessor`). There is nothing else (`Machine.course_of_perform`).

`Machine.Reachable` are the machines that come of a new one through requests.
-/

set_option autoImplicit false
set_option relaxedAutoImplicit false

namespace Mos6502

namespace Machine

/-! ### Single requests -/

/-- Whether the processor stays as it is, and no frame is added. -/
structure LeavesProcessor (machine next : Machine) : Prop where
  registers : next.registers = machine.registers
  state : next.state = machine.state
  steps : next.steps = machine.steps
  frames : next.timeline.toList ⊆ machine.timeline.toList

namespace LeavesProcessor

theorem refl (machine : Machine) : machine.LeavesProcessor machine :=
  ⟨rfl, rfl, rfl, List.Subset.refl _⟩

theorem withMemory (machine : Machine) (memory : Memory) :
    machine.LeavesProcessor (machine.withMemory memory) :=
  { refl machine with }

theorem withSettings (machine : Machine) (settings : Settings) :
    machine.LeavesProcessor (machine.withSettings settings) :=
  { refl machine with }

theorem clearTimeline (machine : Machine) : machine.LeavesProcessor machine.clearTimeline :=
  { refl machine with frames := List.nil_subset _ }

theorem resolveOperand (machine : Machine) (mode : Option Mode) :
    machine.LeavesProcessor (machine.resolveOperand mode).2 := by
  cases mode with
  | none => exact refl machine
  | some mode => exact { refl machine with }

theorem answerLoad_loadProgram (machine : Machine) (bytes : List UInt8) (origin : UInt16) :
    machine.LeavesProcessor (machine.answerLoad (machine.loadProgram bytes origin)).2 := by
  rw [loadProgram]
  cases machine.memory.load origin bytes with
  | error error => exact refl machine
  | ok memory => exact withMemory machine _

theorem of_loadProgram {machine loaded : Machine} {bytes : List UInt8} {origin : UInt16}
    (hload : machine.loadProgram bytes origin = .ok loaded) : machine.LeavesProcessor loaded := by
  have hleaves := answerLoad_loadProgram machine bytes origin
  rwa [hload] at hleaves

theorem answerLoad_load (machine : Machine) (bytes : List UInt8) (origin : UInt16) :
    machine.LeavesProcessor
      (machine.answerLoad ((machine.memory.load origin bytes).map machine.withMemory)).2 := by
  cases machine.memory.load origin bytes with
  | error error => exact refl machine
  | ok memory => exact withMemory machine memory

end LeavesProcessor

/-- The machine that a request starts anew, if it does: by a reset, or by a load that runs its
program. -/
def restarted? (machine : Machine) : Request → Option Machine
  | .reset => some machine.reset
  | .loadAndRun _ bytes => (machine.loadProgram bytes).toOption.map reset
  | _ => none

/-- Whether there are machines that a request starts anew. -/
def Request.Restarts (request : Request) : Prop :=
  ∃ machine start, restarted? machine request = some start

/-- The machine that makes the steps of a request. -/
def startFor (machine : Machine) (request : Request) : Machine :=
  (machine.restarted? request).getD machine

theorem exists_eq_reset_of_restarted? {machine start : Machine} {request : Request}
    (hrestarted : machine.restarted? request = some start) :
    ∃ loaded, machine.LeavesProcessor loaded ∧ start = loaded.reset := by
  cases request with
  | reset =>
    cases hrestarted
    exact ⟨machine, .refl machine, rfl⟩
  | loadAndRun budget bytes =>
    cases hload : machine.loadProgram bytes with
    | error error =>
      rw [restarted?, hload] at hrestarted
      cases hrestarted
    | ok loaded =>
      rw [restarted?, hload] at hrestarted
      cases hrestarted
      exact ⟨loaded, .of_loadProgram hload, rfl⟩
  | _ => cases hrestarted

/-- The steps of a request start from the machine itself, or from a reset. -/
theorem startFor_eq_or (machine : Machine) (request : Request) :
    machine.startFor request = machine ∨
      ∃ loaded, machine.LeavesProcessor loaded ∧ machine.startFor request = loaded.reset := by
  rw [startFor]
  cases hrestarted : machine.restarted? request with
  | none => exact .inl rfl
  | some start => exact .inr (exists_eq_reset_of_restarted? hrestarted)

/-- Whether a machine can be left by a request: after some number of steps, or without any. -/
inductive Course (machine : Machine) (request : Request) (next : Machine) : Prop
  | steps (count : Nat) (hnext : next = (machine.startFor request).after count)
  | aside (hrestarted : machine.restarted? request = none) (hleaves : machine.LeavesProcessor next)

theorem course_of_perform {machine next : Machine} {request : Request} {response : Response}
    (hperform : machine.perform request = some (response, next)) : machine.Course request next := by
  cases request with
  | step | tryStep =>
    cases hperform
    exact .steps 1 rfl
  | run budget =>
    obtain ⟨⟨result, final⟩, hrun, hanswer⟩ := Option.map_eq_some_iff.mp hperform
    cases hanswer
    obtain ⟨count, hcount⟩ := exists_run_eq_after hrun
    exact .steps count hcount
  | runUntil breakpoints limit =>
    cases hperform
    obtain ⟨count, hcount⟩ := machine.exists_runUntil_eq_after breakpoints limit
    exact .steps count hcount
  | loadAndRun budget bytes =>
    cases hload : machine.loadProgram bytes with
    | error error =>
      rw [perform, loadAndRun, hload] at hperform
      cases hperform
      exact .aside (by rw [restarted?, hload]; rfl) (.refl machine)
    | ok loaded =>
      rw [perform, loadAndRun, hload] at hperform
      obtain ⟨⟨result, final⟩, hrun, hanswer⟩ := Option.map_eq_some_iff.mp hperform
      cases hanswer
      obtain ⟨count, hcount⟩ := exists_run_eq_after hrun
      refine .steps count ?_
      rw [startFor, restarted?, hload]
      exact hcount
  | reset =>
    cases hperform
    exact .steps 0 rfl
  | loadProgram bytes origin =>
    obtain rfl := congrArg Prod.snd (Option.some.inj hperform)
    exact .aside rfl (.answerLoad_loadProgram machine bytes origin)
  | load bytes origin =>
    obtain rfl := congrArg Prod.snd (Option.some.inj hperform)
    exact .aside rfl (.answerLoad_load machine bytes origin)
  | operandAddress mode =>
    cases hperform
    exact .aside rfl (.resolveOperand machine mode)
  | clearTimeline =>
    cases hperform
    exact .aside rfl (.clearTimeline machine)
  | setTrace _ | setTraceLimit _ | setIndirect _ =>
    cases hperform
    exact .aside rfl (.withSettings machine _)
  | writeByte _ _ | writeWord _ _ | clearMemory =>
    cases hperform
    exact .aside rfl (.withMemory machine _)

/-! ### Requests in a row -/

/-- What each of the requests keeps holds of all machines that they leave. -/
theorem forall_mem_trail (kept : Machine → Prop) {requests : List Request}
    (hkeeps : ∀ machine next : Machine, ∀ request ∈ requests, ∀ response,
      machine.perform request = some (response, next) → kept machine → kept next)
    {machine : Machine} (hstart : kept machine) :
    ∀ answer ∈ machine.trail requests, kept answer.2 := by
  induction requests generalizing machine with
  | nil => exact fun _ hanswer ↦ absurd hanswer List.not_mem_nil
  | cons request rest ih =>
    rw [trail]
    split
    · exact fun _ hanswer ↦ absurd hanswer List.not_mem_nil
    · next response next hperform =>
      have hnext := hkeeps machine next request List.mem_cons_self response hperform hstart
      rw [List.forall_mem_cons]
      exact ⟨hnext, ih (fun machine next request hrequest ↦
        hkeeps machine next request (List.mem_cons_of_mem _ hrequest)) hnext⟩

/-- The machines that come of a new one through requests. -/
inductive Reachable : Machine → Prop
  | start {settings : Settings} {memory : Option Memory} {machine : Machine}
      (hstart : ofMemory settings memory = .ok machine) : Reachable machine
  | perform {machine next : Machine} {request : Request} {response : Response}
      (hreachable : Reachable machine)
      (hperform : machine.perform request = some (response, next)) : Reachable next

end Machine

end Mos6502
