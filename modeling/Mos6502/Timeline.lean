import Mos6502.Bus
import Mos6502.Registers

/-!
The record of a run: one frame for each instruction, with the registers that it left and all its
bus traffic.

A `Timeline` is a queue of frames. New frames come in at the end, and the oldest leave when the
limit is passed. It keeps the newer half in reverse and counts its frames, so that both ends are
cheap to reach; `Timeline.toList` is the view through which it is to be understood, with
`toList_push`, `toList_dropOldest` and `toList_record` for the operations.
-/

set_option autoImplicit false
set_option relaxedAutoImplicit false

namespace Mos6502

/-- An access as it is recorded, with the number of the instruction that made it. -/
structure Event where
  step : UInt64
  access : Access
  deriving DecidableEq

/-- What one instruction did: where its opcode was, the registers afterwards, and its traffic. -/
structure Frame where
  step : UInt64
  pc : UInt16
  opcode : UInt8
  a : UInt8
  x : UInt8
  y : UInt8
  sp : UInt8
  flags : UInt8
  events : List Event
  deriving DecidableEq

/-- The frame of an instruction that left the given registers. -/
def Frame.of (step : UInt64) (pc : UInt16) (opcode : UInt8) (registers : Registers)
    (accesses : List Access) : Frame where
  step
  pc
  opcode
  a := registers.a
  x := registers.x
  y := registers.y
  sp := registers.sp
  flags := registers.status.pack
  events := accesses.map (Event.mk step)

/-- Frames in the order in which they were recorded. -/
structure Timeline where
  /-- The older frames, oldest first. -/
  older : List Frame := []
  /-- The newer frames, newest first. -/
  newer : List Frame := []
  length : Nat := 0
  length_eq : length = older.length + newer.length := by rfl

namespace Timeline

def empty : Timeline := {}

/-- The frames, oldest first. -/
def toList (timeline : Timeline) : List Frame := timeline.older ++ timeline.newer.reverse

theorem length_toList (timeline : Timeline) : timeline.toList.length = timeline.length := by
  simp [toList, timeline.length_eq]

@[simp] theorem toList_empty : empty.toList = [] := rfl

/-- Adds the newest frame. -/
def push (timeline : Timeline) (frame : Frame) : Timeline where
  older := timeline.older
  newer := frame :: timeline.newer
  length := timeline.length + 1
  length_eq := by simp [timeline.length_eq]; omega

@[simp] theorem toList_push (timeline : Timeline) (frame : Frame) :
    (timeline.push frame).toList = timeline.toList ++ [frame] := by
  simp [push, toList]

/-- Removes the oldest frame, if there is one. -/
def dropOldest (timeline : Timeline) : Timeline :=
  match content : timeline.older with
  | _ :: older =>
      { older, newer := timeline.newer, length := timeline.length - 1,
        length_eq := by simp [timeline.length_eq, content] }
  | [] =>
      { older := timeline.newer.reverse.tail, newer := [], length := timeline.length - 1,
        length_eq := by simp [timeline.length_eq, content] }

@[simp] theorem toList_dropOldest (timeline : Timeline) :
    timeline.dropOldest.toList = timeline.toList.tail := by
  unfold dropOldest toList
  split <;> simp_all

/-- Removes the given number of oldest frames. -/
def dropMany (timeline : Timeline) : Nat → Timeline
  | 0 => timeline
  | count + 1 => timeline.dropOldest.dropMany count

@[simp] theorem toList_dropMany (timeline : Timeline) (count : Nat) :
    (timeline.dropMany count).toList = timeline.toList.drop count := by
  induction count generalizing timeline with
  | zero => rfl
  | succ count ih => simp [dropMany, ih, List.drop_tail]

/-- Adds the newest frame, and removes the oldest ones beyond the limit. -/
def record (timeline : Timeline) (limit : Nat) (frame : Frame) : Timeline :=
  let timeline := timeline.push frame
  timeline.dropMany (timeline.length - limit)

/-- After a frame is recorded the timeline holds the last ones, as many as the limit allows. -/
theorem toList_record (timeline : Timeline) (limit : Nat) (frame : Frame) :
    (timeline.record limit frame).toList =
      (timeline.toList ++ [frame]).drop ((timeline.toList ++ [frame]).length - limit) := by
  have length : (timeline.toList ++ [frame]).length = (timeline.push frame).length := by
    rw [← toList_push, length_toList]
  simp only [record, toList_dropMany, toList_push, length]

/-- The last frames, as many as asked for if there are that many. -/
def last (timeline : Timeline) (count : Nat) : List Frame :=
  timeline.toList.drop (timeline.length - count)

end Timeline

end Mos6502
