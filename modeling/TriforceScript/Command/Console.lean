import TriforceScript.Evaluator
import TriforceScript.Session.Reply

/-!
# Consoles

What a command can do to the world around it: write lines, read and write files,
and run scripts.  The console of a `World` does all this to a value, so that what
a command does can be told from its outcome.
-/

namespace TriforceScript

namespace Command

/-- The streams to write to. -/
inductive Stream where
  | out
  | err
  deriving DecidableEq, Repr

/-- What a command can do.  Where something may fail, a report tells why. -/
structure Console (m : Type → Type) where
  /-- Writes a status text.  Nobody asks whether it arrives. -/
  say : Stream → Bytes → m Unit
  /-- Writes generated code to the standard output. -/
  deliver : Bytes → m (Except Report Unit)
  /-- Reads all that is left of the standard input. -/
  readInput : m (Except Report Bytes)
  /-- Reads a file. -/
  readFile : Bytes → m (Except Report Bytes)
  /-- Writes a file: its name, then its content. -/
  writeFile : Bytes → Bytes → m (Except Report Unit)
  /-- Runs a script. -/
  evaluate : Evaluator.Call → m (Except Report Unit)

/-! ## Input -/

/-- What the standard input is. -/
inductive InputSource where
  /-- A device for characters, such as a terminal. -/
  | device
  /-- A file that is open. -/
  | file
  /-- A file that is closed. -/
  | closed
  /-- A stream of another kind. -/
  | stream
  deriving DecidableEq, Repr

/-- Whether somebody may be typing. -/
def InputSource.isInteractive : InputSource → Bool
  | .device => true
  | _ => false

/-- The standard input. -/
structure Input where
  /-- What it is. -/
  source : InputSource := .stream
  /-- All that can be read. -/
  bytes : Bytes := []
  /-- Why it cannot be read any further, unless it comes to its end. -/
  failure : Option Bytes := none
  deriving DecidableEq, Repr

def Input.ending (input : Input) : Session.Ending :=
  match input.failure with
  | none => .eof
  | some message => .failure message

/-- Why the standard input cannot be copied to a program, if it cannot.  Only a stream is
copied: a file, open or closed, is handed over as it is and not read. -/
def Input.copyFailure? (input : Input) : Option Bytes :=
  match input.source with
  | .stream => input.failure
  | .device | .file | .closed => none

/-! ## Worlds -/

/-- What a command can change. -/
structure World where
  /-- The files. -/
  files : FileTree
  /-- What is left of the standard input. -/
  input : Input
  /-- What has been written to the standard output. -/
  out : Bytes := []
  /-- What has been written to the standard error. -/
  err : Bytes := []
  deriving DecidableEq, Repr

/-- What a command cannot change. -/
structure Surroundings where
  /-- The programs that can be run. -/
  programs : Evaluator.Programs
  /-- Why nothing can be written to the standard output, if nothing can. -/
  refusal : Option Bytes := none

namespace World

/-- Adds to a stream.  What goes to a standard output that refuses it is lost. -/
def write (surroundings : Surroundings) (stream : Stream) (text : Bytes) (world : World) :
    World :=
  match stream with
  | .err => { world with err := world.err ++ text }
  | .out =>
      if surroundings.refusal.isSome then world else { world with out := world.out ++ text }

/-- The failure of a run whose evaluator itself did not fail: a stream that the
command copies for it may have. -/
def streamFailure? (surroundings : Surroundings) (input : Input) (out : Bytes) :
    Option Evaluator.Failure :=
  match input.copyFailure?, surroundings.refusal with
  | some message, _ => some (.stream message)
  | none, some message => if out = [] then none else some (.stream message)
  | none, none => none

/-- Runs a script and takes over what it writes. -/
def evaluate (surroundings : Surroundings) (call : Evaluator.Call) (world : World) :
    Except Report Unit × World :=
  let run := Evaluator.run surroundings.programs false world.files world.input.bytes call
  let after := (world.write surroundings .out run.out).write surroundings .err run.err
  match run.failure <|> streamFailure? surroundings world.input run.out with
  | some failure => (.error (Evaluator.report call failure), after)
  | none => (.ok (), after)

end World

/-- The console that does everything to a `World`. -/
def Console.virtual (surroundings : Surroundings) : Console (StateM World) where
  say stream text := modify (World.write surroundings stream text)
  deliver text world :=
    match surroundings.refusal with
    | some message => (.error (.outside message), world)
    | none => (.ok (), world.write surroundings .out text)
  readInput world :=
    let rest := { world with input := { world.input with bytes := [] } }
    match world.input.failure with
    | some message => (.error (.outside message), rest)
    | none => (.ok world.input.bytes, rest)
  readFile name world :=
    ((world.files.read name).mapError fun fault => .outside fault.message, world)
  writeFile name content world :=
    match world.files.write name content with
    | .error fault => (.error (.outside fault.message), world)
    | .ok files => (.ok (), { world with files })
  evaluate call world := world.evaluate surroundings call

end Command

end TriforceScript
