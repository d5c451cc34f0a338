import TriforceScript.Command

/-!
# The program

The command on the real standard streams and files.  It starts no other programs,
so that every evaluator is one that cannot be found.
-/

namespace TriforceScript

namespace Command

namespace Terminal

/-- A text as a string.  Bytes that are no characters are shown as U+FFFD. -/
def display (text : Bytes) : String :=
  String.ofList (text.glyphs.map Glyph.shown)

def write (stream : Stream) (text : Bytes) : IO Unit := do
  let handle ← match stream with
    | .out => IO.getStdout
    | .err => IO.getStderr
  handle.write (ByteArray.mk text.toArray)
  handle.flush

/-- Does something that may fail, and reports the failure under a heading. -/
def attempt {α : Type} (heading : Bytes) (act : IO α) : IO (Except Report α) := do
  try
    return .ok (← act)
  catch failure =>
    let cause :=
      match failure with
      | .noFileOrDirectory _ _ _ => FileTree.Cause.missing.message
      | _ => utf8 (toString failure)
    return .error (.outside (heading ++ cause))

/-- The heading of failures to open a file. -/
def opening (name : Bytes) : Bytes :=
  FileTree.Action.opening.message ++ utf8 " " ++ name ++ utf8 ": "

/-- Reads a stream to its end. -/
partial def readAll (stream : IO.FS.Stream) (before : ByteArray) : IO ByteArray := do
  let next ← stream.read 4096
  if next.isEmpty then
    return before
  else
    readAll stream (before ++ next)

/-- The console of the real world. -/
def console : Console IO where
  say stream text := do
    let _ ← attempt [] (write stream text)
  deliver text := attempt [] (write .out text)
  readInput := attempt [] do
    return (← readAll (← IO.getStdin) ByteArray.empty).toList
  readFile name := attempt (opening name) do
    return (← IO.FS.readBinFile (display name)).toList
  writeFile name content := attempt (opening name) do
    IO.FS.writeBinFile (display name) (ByteArray.mk content.toArray)
  evaluate call := do
    let run := Evaluator.run .none false {} [] call
    return match run.failure with
      | some failure => .error (Evaluator.report call failure)
      | none => .ok ()

def reply (answer : Session.Reply) : IO Unit := do
  console.say .out answer.out
  console.say .err (answer.err false)

/-- Goes on with a session in which the lines `pending` wait for an answer. -/
partial def converse (pending : Bytes) : IO Unit := do
  match ← attempt [] (do (← IO.getStdin).getLine) with
  | .error report => reply (.unreadable report.message)
  | .ok line =>
      let line := utf8 line
      if line.getLast? = some Bytes.lineFeed then
        let (answer, kept) := Session.answer (pending ++ line)
        reply answer
        converse kept
      else
        reply (Session.Buffered.last .eof pending line)

/-- Does what the arguments ask for, and gives the status to end with. -/
def perform (environment : Environment) (colours : Bool) (arguments : List Bytes) :
    IO Nat := do
  let (options, action) := action environment.defaults arguments
  match action with
  | .refuse fault =>
      console.say .err (fault.message ++ usage environment.defaults)
      return fault.status
  | .version =>
      console.say .out versionLine
      return 0
  | .session =>
      converse []
      return 0
  | .compile script arguments =>
      Job.compile ⟨options, colours && !options.noColours, script, arguments⟩ console

end Terminal

end Command

end TriforceScript

open TriforceScript in
/-- Runs the command with the arguments and the environment of the process. -/
def main (arguments : List String) : IO UInt32 := do
  let environment : Command.Environment :=
    { evaluator := (← IO.getEnv "TRIFORCE_NODE").map utf8 }
  let colours := ((← IO.getEnv "NO_COLOR").getD "").isEmpty
  let status ← Command.Terminal.perform environment colours (arguments.map utf8)
  return status.toUInt32
