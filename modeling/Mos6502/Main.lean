import Mos6502.CommandLine

/-!
The executable: arguments, files and the terminal around `CommandLine.start` and
`Session.answer`.
-/

set_option autoImplicit false
set_option relaxedAutoImplicit false

namespace Mos6502.Terminal

/-- What can be read from an open file; one that cannot be read is a directory. -/
def contents (handle : IO.FS.Handle) : IO Source := do
  try return Source.ofBytes (← handle.readBinToEnd).toList
  catch _ => return .directory

/-- What a name opens. -/
def source (name : String) : IO (Option Source) := do
  try return some (← contents (← IO.FS.Handle.mk name .read))
  catch _ => return none

/-- What a path opens, as the only thing there is. -/
def filesAt (path : Option Text) : IO Files := do
  let some path := path | return fun _ ↦ none
  let some name := String.fromUTF8? ⟨path.untilNul.toBytes.toArray⟩ | return fun _ ↦ none
  let opened ← source name
  return fun other ↦ if other = path then opened else none

/-- Writes text as the bytes it stands for. -/
def write (stream : IO.FS.Stream) (text : Text) : IO Unit := do
  stream.write ⟨text.toBytes.toArray⟩
  stream.flush

/-- Writes both texts of an answer. -/
def say (answer : Answer) : IO Unit := do
  write (← IO.getStdout) answer.out
  write (← IO.getStderr) answer.err

/-- The next line of the input and what was read beyond it; there is none at the end. -/
partial def readLine (input : IO.FS.Stream) (pending : Text) : IO (Option (Text × Text)) := do
  if pending.contains '\n' then
    let (line, rest) := pending.span (· != '\n')
    return some (line, rest.drop 1)
  let chunk ← input.read 4096
  if chunk.isEmpty then
    return if pending.isEmpty then none else some (pending, [])
  readLine input (pending ++ Text.ofBytes chunk.toList)

/-- Answers lines until the session is over or the input ends. -/
partial def converse (input : IO.FS.Stream) (pending : Text) (session : Session) : IO Unit := do
  let some (line, pending) ← readLine input pending | return
  let path := match Command.parse line with
    | .ok command => command.path?
    | .error _ => none
  let (answer, next) := session.answer (← filesAt path) line
  say answer
  match next with
  | none => return
  | some session => converse input pending session

/-- The number of steps after which a batch run is given up. -/
def budget : Nat := 1 <<< 62

/-- Runs the program and gives its exit status. -/
def run (arguments : List Text) : IO UInt32 := do
  match CommandLine.start (← filesAt (CommandLine.path? arguments)) arguments with
  | .exit status answer =>
      say answer
      return UInt32.ofNat status
  | .batch machine =>
      let some ended := machine.run budget | return 1
      let (status, answer) := CommandLine.batchEnd ended
      say answer
      return UInt32.ofNat status
  | .monitor session =>
      say session.greeting
      converse (← IO.getStdin) [] session
      return 0

end Mos6502.Terminal

def main (arguments : List String) : IO UInt32 :=
  Mos6502.Terminal.run (arguments.map fun argument ↦ Mos6502.Text.ofBytes argument.toUTF8.toList)
