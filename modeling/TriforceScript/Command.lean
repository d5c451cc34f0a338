import TriforceScript.Command.Compile
import TriforceScript.Session.Buffered
import TriforceScript.Session.Prompted

/-!
# The command

What the command does for its arguments: it explains itself, tells its version,
holds a session, or compiles a source text.
-/

namespace TriforceScript

namespace Command

/-- What the command reads from its environment. -/
structure Environment where
  /-- The wish for an evaluator, if there is one. -/
  evaluator : Option Bytes := none
  /-- The home folder, if there is one. -/
  home : Option Bytes := none
  /-- The programs that can be run. -/
  programs : Evaluator.Programs := .basic

/-- The options without any flag. -/
def Environment.defaults (environment : Environment) : Options :=
  { evaluator := Evaluator.command environment.evaluator }

def versionLine : Bytes :=
  utf8 "TriforceScript compiler version 0.1.0\n"

/-- What the arguments ask for. -/
inductive Action where
  /-- Nothing that can be done. -/
  | refuse (fault : FlagFault)
  /-- To tell the version. -/
  | version
  /-- To hold a session. -/
  | session
  /-- To compile a source text. -/
  | compile (script : Bytes) (arguments : List Bytes)
  deriving DecidableEq, Repr

/-- What the arguments ask for, and with which options. -/
def action (defaults : Options) (arguments : List Bytes) : Options × Action :=
  match readFlags defaults arguments with
  | .error fault => (defaults, .refuse fault)
  | .ok ⟨options, operands⟩ =>
      if options.showVersion then
        (options, .version)
      else
        match operands with
        | [] => (options, .session)
        | script :: arguments => (options, .compile script arguments)

/-- What lasts from one run of the command to the next. -/
structure State where
  /-- Whether texts are coloured. -/
  colours : Bool
  /-- The files. -/
  files : FileTree
  deriving DecidableEq, Repr

/-- One run of the command. -/
structure Request where
  /-- The arguments. -/
  arguments : List Bytes
  /-- The standard input. -/
  input : Input := {}
  /-- Why nothing can be written to the standard output, if nothing can. -/
  refusal : Option Bytes := none
  deriving DecidableEq, Repr

/-- What came of a run. -/
structure Outcome where
  /-- The status that the command ended with. -/
  status : Nat
  /-- What it wrote to the standard output. -/
  out : Bytes
  /-- What it wrote to the standard error. -/
  err : Bytes
  deriving DecidableEq, Repr

/-- The greatest number of bytes that a session with prompts takes for a line. -/
def lineLimit : Nat :=
  4096

/-- The history that a session starts with.  A file that cannot be read is none. -/
def loadHistory (files : FileTree) (path : Option Bytes) : History :=
  match path.map files.read with
  | some (.ok content) => History.load lineLimit content
  | _ => []

/-- The files after a session.  A history that cannot be written is lost. -/
def saveHistory (files : FileTree) (path : Option Bytes) (history : History) : FileTree :=
  match path.map (files.write · history.save) with
  | some (.ok after) => after
  | _ => files

/-- Holds a session: with prompts and a history if somebody may be typing, and
otherwise without. -/
def holdSession (environment : Environment) (colours : Bool) (world : World)
    (surroundings : Surroundings) : World :=
  if world.input.source.isInteractive then
    let path := History.path? environment.home
    let outcome :=
      Session.Prompted.runOn colours (loadHistory world.files path) lineLimit
        world.input.bytes world.input.ending
    let written := (world.write surroundings .out outcome.out).write surroundings .err outcome.err
    { written with files := saveHistory world.files path outcome.history }
  else
    let input := world.input.bytes
    (world.write surroundings .out (Session.Buffered.out input world.input.ending)).write
      surroundings .err (Session.Buffered.err input world.input.ending)

/-- Does what the arguments ask for, and gives the status to end with. -/
def perform (environment : Environment) (surroundings : Surroundings) (colours : Bool)
    (options : Options) (action : Action) : StateM World Nat := do
  let console := Console.virtual surroundings
  match action with
  | .refuse fault =>
      console.say .err (fault.message ++ usage environment.defaults)
      return fault.status
  | .version =>
      console.say .out versionLine
      return 0
  | .session =>
      modify fun world => holdSession environment colours world surroundings
      return 0
  | .compile script arguments => Job.compile ⟨options, colours, script, arguments⟩ console

/-- Runs the command once.  Colours that are turned off stay off. -/
def run (environment : Environment) (state : State) (request : Request) : Outcome × State :=
  let (options, action) := action environment.defaults request.arguments
  let colours := state.colours && !options.noColours
  let (status, world) :=
    perform environment ⟨environment.programs, request.refusal⟩ colours options action
      { files := state.files, input := request.input }
  (⟨status, world.out, world.err⟩, ⟨colours, world.files⟩)

/-- Runs the command several times, and gives the outcome of each run with the
state after it. -/
def runAll (environment : Environment) : State → List Request → List (Outcome × State)
  | _, [] => []
  | state, request :: requests =>
      let result := run environment state request
      result :: runAll environment result.2 requests

end Command

end TriforceScript
