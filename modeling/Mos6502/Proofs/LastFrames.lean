import Mathlib.Data.List.DropRight
import Mos6502.Proofs.Recording
import Mos6502.Proofs.Transparency

/-!
What the limit of a timeline leaves of the frames that were recorded. The frames that requests
record (`Machine.recording`) do not depend on limits, for they are those of a machine with a limit
that is never reached (`Machine.toList_timeline_left_withLimit`). A request that records a frame
puts it behind the others, and cuts off the oldest ones as far as the limit demands; no other
request touches the timeline, not even one that changes the limit or leaves pending traffic
(`Machine.toList_timeline_next`).

Hence the timeline is always the end of the recording. `Machine.timeline_keeps_last` says how long
it is after a step, and which frames it has if the limit stays the same.
-/

set_option autoImplicit false
set_option relaxedAutoImplicit false

namespace Mos6502

/-- The end of a list that grows by an item is the end of its end that grows by the item. -/
theorem rtake_concat_rtake {α : Type} (items : List α) (item : α) (count : Nat) :
    (items.rtake count ++ [item]).rtake count = (items ++ [item]).rtake count := by
  cases count with
  | zero => rw [List.rtake_zero, List.rtake_zero]
  | succ count =>
    rw [List.rtake_concat_succ, List.rtake_concat_succ]
    simp only [List.rtake, List.length_drop, List.drop_drop]
    congr 2
    omega

namespace Machine

/-! ### Requests for single steps -/

namespace Request

/-- Whether a request makes one step. -/
def isStep : Request → Bool
  | .step | .tryStep => true
  | _ => false

/-- Whether a request makes one step, asks for an operand address, or changes how the machine
traces. -/
def isElementary : Request → Bool
  | .step | .tryStep | .operandAddress _ | .setTrace _ | .setTraceLimit _ => true
  | _ => false

/-- The request with another limit, if it sets one. -/
def withLimit (limit : Nat) : Request → Request
  | .setTraceLimit _ => .setTraceLimit limit
  | request => request

end Request

/-- The machine with another limit of frames. -/
def withLimit (machine : Machine) (limit : Nat) : Machine :=
  machine.withSettings { machine.settings with traceLimit := limit }

/-- The machine that a request leaves. An exception that it raises is caught. -/
def next (machine : Machine) (request : Request) : Machine :=
  ((machine.perform request).map Prod.snd).getD machine

/-- The machine that requests in a row leave. -/
def left (machine : Machine) (requests : List Request) : Machine :=
  requests.foldl next machine

/-- The frame that a request records, if it does. -/
def recordedBy (machine : Machine) (request : Request) : List Frame :=
  if request.isStep ∧ machine.state = .running ∧ machine.settings.trace then [machine.frame] else []

/-- The frames that requests in a row record. -/
def recording (machine : Machine) : List Request → List Frame
  | [] => []
  | request :: rest => machine.recordedBy request ++ (machine.next request).recording rest

theorem left_concat (machine : Machine) (front : List Request) (request : Request) :
    machine.left (front ++ [request]) = (machine.left front).next request := by
  rw [left, List.foldl_concat]
  rfl

theorem recording_concat (machine : Machine) (front : List Request) (request : Request) :
    machine.recording (front ++ [request]) =
      machine.recording front ++ (machine.left front).recordedBy request := by
  induction front generalizing machine with
  | nil => exact List.append_nil _
  | cons first rest ih =>
    rw [List.cons_append, recording, recording, ih, List.append_assoc]
    rfl

theorem length_recordedBy_le (machine : Machine) (request : Request) :
    (machine.recordedBy request).length ≤ 1 := by
  unfold recordedBy
  split
  · exact Nat.le_refl 1
  · exact Nat.zero_le 1

/-- There is one frame at most for each request. -/
theorem length_recording_le (machine : Machine) (requests : List Request) :
    (machine.recording requests).length ≤ requests.length := by
  induction requests generalizing machine with
  | nil => exact Nat.le_refl 0
  | cons request rest ih =>
    have hfirst := machine.length_recordedBy_le request
    have hrest := ih (machine.next request)
    rw [recording, List.length_append, List.length_cons]
    omega

/-! ### What a request leaves of the timeline -/

/-- A step that records a frame leaves the last frames, as many as the limit allows. No other
request touches the timeline. -/
theorem toList_timeline_next {machine : Machine} {request : Request}
    (helementary : request.isElementary) :
    (machine.next request).timeline.toList =
      if machine.recordedBy request = [] then machine.timeline.toList
      else (machine.timeline.toList ++ machine.recordedBy request).rtake
        machine.settings.traceLimit := by
  have hstep : machine.step.2.timeline.toList =
      if machine.recordedBy .step = [] then machine.timeline.toList
      else (machine.timeline.toList ++ machine.recordedBy .step).rtake
        machine.settings.traceLimit := by
    by_cases hrunning : machine.state = .running
    · cases htrace : machine.settings.trace with
      | true =>
        rw [toList_timeline_step_of_trace hrunning htrace]
        simp [recordedBy, Request.isStep, hrunning, htrace, List.rtake]
      | false => simp [timeline_step hrunning, recordedBy, htrace]
    · simp [step_of_stopped machine hrunning, recordedBy, hrunning]
  cases request with
  | step | tryStep => exact hstep
  | operandAddress mode => cases mode <;> rfl
  | setTrace _ | setTraceLimit _ => rfl
  | _ => cases helementary

/-! ### The recording as a timeline without a limit -/

/-- Whether two machines agree in all but what they have recorded and how many frames they may
hold. -/
structure AgreeBeyondLimit (first second : Machine) : Prop
    extends AgreeBeyondTrace first second where
  trace : second.settings.trace = first.settings.trace

namespace AgreeBeyondLimit

variable {first second : Machine} (hagree : first.AgreeBeyondLimit second)
include hagree

/-- The next step leaves the same frame. -/
theorem frame : second.frame = first.frame := by
  have hcycle : second.cycle = first.cycle := by
    rw [cycle, cycle, hagree.indirect, hagree.registers]
  rw [Machine.frame, Machine.frame, hagree.steps, hagree.registers, hagree.memory, hcycle,
    hagree.step.machines.registers]

theorem recordedBy (request : Request) (limit : Nat) :
    second.recordedBy (request.withLimit limit) = first.recordedBy request := by
  have hstep : (request.withLimit limit).isStep = request.isStep := by cases request <;> rfl
  rw [Machine.recordedBy, Machine.recordedBy, hstep, hagree.state, hagree.trace, hagree.frame]

theorem next {request : Request} (helementary : request.isElementary) (limit : Nat) :
    (first.next request).AgreeBeyondLimit (second.next (request.withLimit limit)) := by
  have hsettings (machine : Machine) : machine.step.2.settings = machine.settings :=
    machine.settings_step
  cases request with
  | step | tryStep =>
    refine ⟨hagree.step.machines, ?_⟩
    exact (congrArg Settings.trace (hsettings second)).trans
      (hagree.trace.trans (congrArg Settings.trace (hsettings first)).symm)
  | operandAddress mode =>
    refine ⟨(hagree.resolveOperand mode).machines, ?_⟩
    cases mode <;> exact hagree.trace
  | setTrace on => exact ⟨hagree.withSettings hagree.indirect, rfl⟩
  | setTraceLimit given => exact ⟨hagree.withSettings hagree.indirect, hagree.trace⟩
  | _ => cases helementary

end AgreeBeyondLimit

theorem isElementary_withLimit {request : Request} (helementary : request.isElementary)
    (limit : Nat) : (request.withLimit limit).isElementary := by
  cases request <;> exact helementary

/-- Only a request for another limit changes the limit. -/
theorem traceLimit_next {machine : Machine} {request : Request}
    (helementary : request.isElementary)
    (hlimit : ∀ limit, request = .setTraceLimit limit → limit = machine.settings.traceLimit) :
    (machine.next request).settings.traceLimit = machine.settings.traceLimit := by
  cases request with
  | step | tryStep => exact congrArg Settings.traceLimit machine.settings_step
  | operandAddress mode => cases mode <;> rfl
  | setTrace on => rfl
  | setTraceLimit limit => exact hlimit limit rfl
  | _ => cases helementary

/-- With a limit that is not reached the timeline holds all frames that are recorded. -/
theorem left_withLimit {machine : Machine} (hempty : machine.timeline.toList = [])
    {requests : List Request} (helementary : ∀ request ∈ requests, request.isElementary)
    {limit : Nat} (hlimit : requests.length ≤ limit) :
    let unlimited := (machine.withLimit limit).left (requests.map (Request.withLimit limit))
    (machine.left requests).AgreeBeyondLimit unlimited ∧ unlimited.settings.traceLimit = limit ∧
      unlimited.timeline.toList = machine.recording requests := by
  induction requests using List.reverseRecOn with
  | nil => exact ⟨⟨⟨⟨rfl, rfl, rfl, rfl⟩, rfl⟩, rfl⟩, rfl, hempty⟩
  | append_singleton front request ih =>
    rw [List.length_append, List.length_singleton] at hlimit
    rw [List.forall_mem_append, List.forall_mem_singleton] at helementary
    obtain ⟨hfront, hrequest⟩ := helementary
    have hother := isElementary_withLimit hrequest limit
    obtain ⟨hagree, hsame, hframes⟩ := ih hfront (by omega)
    rw [List.map_append, List.map_singleton, left_concat, left_concat, recording_concat]
    refine ⟨hagree.next hrequest limit, ?_, ?_⟩
    · rw [traceLimit_next hother, hsame]
      intro given hgiven
      rw [hsame]
      cases request <;> cases hgiven
      rfl
    · have hlength := machine.length_recording_le front
      have hone := (machine.left front).length_recordedBy_le request
      rw [toList_timeline_next hother, hagree.recordedBy, hsame, hframes]
      split
      · next hnone => rw [hnone, List.append_nil]
      · rw [List.rtake, List.length_append, Nat.sub_eq_zero_of_le (by omega), List.drop_zero]

/-! ### The timeline as the end of the recording -/

/-- What a timeline keeps of the frames that requests in a row record. -/
structure KeepsLast (machine : Machine) (requests : List Request) : Prop where
  /-- The recording is the timeline of a machine with a limit that is never reached. -/
  unlimited : ∀ limit, requests.length ≤ limit →
    ((machine.withLimit limit).left (requests.map (Request.withLimit limit))).timeline.toList =
      machine.recording requests
  /-- The timeline is the end of the recording. -/
  suffix : (machine.left requests).timeline.toList <:+ machine.recording requests
  /-- A step that records a frame leaves no more than the limit allows. -/
  bounded : ∀ front last, requests = front ++ [last] → last.isStep →
    (machine.left front).state = .running → (machine.left front).settings.trace = true →
      (machine.left requests).timeline.toList.length ≤
        (machine.left requests).settings.traceLimit
  /-- If the limit stays the same, all frames are there that it allows. -/
  constant : (∀ limit, Request.setTraceLimit limit ∈ requests →
      limit = machine.settings.traceLimit) →
    (machine.left requests).timeline.toList =
      (machine.recording requests).rtake
        (min machine.settings.traceLimit (machine.recording requests).length)

section Requests

variable {machine : Machine} (hempty : machine.timeline.toList = []) {requests : List Request}
  (helementary : ∀ request ∈ requests, request.isElementary)
include hempty helementary

theorem timeline_suffix_recording :
    (machine.left requests).timeline.toList <:+ machine.recording requests := by
  induction requests using List.reverseRecOn with
  | nil => exact List.suffix_nil.mpr hempty
  | append_singleton front request ih =>
    rw [List.forall_mem_append, List.forall_mem_singleton] at helementary
    obtain ⟨earlier, hearlier⟩ := ih helementary.1
    rw [left_concat, recording_concat, toList_timeline_next helementary.2, ← hearlier,
      List.append_assoc]
    split
    · next hnone =>
      rw [hnone, List.append_nil]
      exact List.suffix_append _ _
    · exact (List.drop_suffix _ _).trans (List.suffix_append _ _)

theorem timeline_eq_rtake_recording
    (hconstant : ∀ limit, Request.setTraceLimit limit ∈ requests →
      limit = machine.settings.traceLimit) :
    (machine.left requests).settings.traceLimit = machine.settings.traceLimit ∧
      (machine.left requests).timeline.toList =
        (machine.recording requests).rtake machine.settings.traceLimit := by
  induction requests using List.reverseRecOn with
  | nil => exact ⟨rfl, hempty.trans (List.rtake_nil _).symm⟩
  | append_singleton front request ih =>
    rw [List.forall_mem_append, List.forall_mem_singleton] at helementary
    obtain ⟨hlimit, hframes⟩ := ih helementary.1 fun limit hmem ↦
      hconstant limit (List.mem_append_left _ hmem)
    rw [left_concat, recording_concat, toList_timeline_next helementary.2, hlimit, hframes]
    constructor
    · rw [traceLimit_next helementary.2, hlimit]
      rintro limit rfl
      rw [hlimit]
      exact hconstant limit (List.mem_append_right _ List.mem_cons_self)
    · unfold recordedBy
      split
      · rw [if_neg (List.cons_ne_nil _ _), rtake_concat_rtake]
      · rw [if_pos rfl, List.append_nil]

end Requests

/-- Behind a step that records a frame the timeline is not longer than the limit. -/
theorem length_timeline_next_le {machine : Machine} {request : Request} (hstep : request.isStep)
    (hrunning : machine.state = .running) (htrace : machine.settings.trace = true) :
    (machine.next request).timeline.toList.length ≤
      (machine.next request).settings.traceLimit := by
  have helementary : request.isElementary := by cases request <;> first | rfl | cases hstep
  have hlimit : (machine.next request).settings.traceLimit = machine.settings.traceLimit := by
    refine traceLimit_next helementary ?_
    rintro limit rfl
    cases hstep
  have hrecorded : machine.recordedBy request = [machine.frame] :=
    if_pos ⟨hstep, hrunning, htrace⟩
  rw [toList_timeline_next helementary, hlimit, hrecorded, if_neg (List.cons_ne_nil _ _),
    List.rtake, List.length_drop]
  omega

/-- Let a machine with an empty timeline be asked for steps and operand addresses, and be told to
trace or not and how many frames it may hold. Then its timeline is the end of all that it records,
is not longer than the limit behind a step that records a frame, and holds all that a constant limit
allows. As this is said of all requests in a row, it holds after each of them. -/
theorem timeline_keeps_last (machine : Machine) (hempty : machine.timeline.toList = [])
    (requests : List Request) (helementary : ∀ request ∈ requests, request.isElementary) :
    machine.KeepsLast requests := by
  constructor
  case unlimited =>
    intro limit hlimit
    exact (left_withLimit hempty helementary hlimit).2.2
  case suffix => exact timeline_suffix_recording hempty helementary
  case bounded =>
    rintro front last rfl hstep hrunning htrace
    rw [left_concat]
    exact length_timeline_next_le hstep hrunning htrace
  case constant =>
    intro hconstant
    rw [(timeline_eq_rtake_recording hempty helementary hconstant).2, List.rtake, List.rtake]
    congr 1
    omega

/-- The limit shrinks to one frame and grows again, the trace is switched off for one step, and
addresses are asked for in between. The last step but one is a fault, and the last one does
nothing. -/
theorem timeline_keeps_last_of_changing_limit :
    let machine : Machine :=
      { memory := Memory.blank.writeBytes 0 [0xEA, 0x8D, 0x00, 0x02, 0xEA, 0xEA, 0xEA, 0x02]
        settings := { trace := true, traceLimit := 2 }
        pending := [⟨7, ⟨.read, 0x0300, 0x00, .operand⟩⟩] }
    let requests : List Request :=
      [.step, .operandAddress (some .absolute), .step, .setTraceLimit 1, .step, .setTrace false,
        .step, .setTrace true, .setTraceLimit 3, .step, .operandAddress none, .tryStep, .step]
    machine.timeline.toList = [] ∧ (∀ request ∈ requests, request.isElementary) ∧
      machine.KeepsLast requests ∧
      (machine.recording requests).map Frame.step = [1, 2, 3, 5, 6] ∧
      (machine.left requests).timeline.toList.map Frame.step = [3, 5, 6] ∧
      (machine.left requests).timeline.toList.map (Frame.accesses · |>.length) = [1, 1, 1] ∧
      (machine.left requests).state = .faulted := by
  intro machine requests
  have helementary : ∀ request ∈ requests, request.isElementary := by decide
  exact ⟨rfl, helementary, timeline_keeps_last machine rfl requests helementary,
    by decide +kernel, by decide +kernel, by decide +kernel, by decide +kernel⟩

end Machine

end Mos6502
