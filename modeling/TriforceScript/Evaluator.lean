import TriforceScript.Evaluator.Cat
import TriforceScript.Evaluator.Echo
import TriforceScript.Text.Blank
import TriforceScript.Text.Quoted
import TriforceScript.Fault

/-!
# Evaluators

Generated programs are run by another program, the evaluator.  It is found by its
name, gets the script and further arguments, and reads files but changes none.
-/

namespace TriforceScript

namespace Evaluator

/-- The command that runs scripts if no other is given. -/
def standardCommand : Bytes :=
  utf8 "node"

/-- The command that the environment asks for, or the standard one. -/
def command (wish : Option Bytes) : Bytes :=
  let wanted := Bytes.trim (wish.getD [])
  if wanted = [] then standardCommand else wanted

/-! ## Finding programs -/

/-- The programs that can be run. -/
structure Programs where
  /-- The program at a path, if there is one. -/
  at? : Bytes → Option Program
  /-- Whether a program can be found by its name alone. -/
  searched : Bool := true

namespace Programs

/-- The folder where programs are found by their names. -/
def folder : Bytes :=
  utf8 "/usr/bin/"

/-- The path of the program of a name, if there is one. -/
def find? (programs : Programs) (name : Bytes) : Option Bytes :=
  if programs.searched && (programs.at? (folder ++ name)).isSome then
    some (folder ++ name)
  else
    none

/-- The name of a file in one of the two folders that keep programs. -/
def nameIn? (path : Bytes) : Option Bytes :=
  match Path.components path with
  | [root, first, name] =>
      if root = [] ∧ first = utf8 "bin" then some name else none
  | [root, first, second, name] =>
      if root = [] ∧ first = utf8 "usr" ∧ second = utf8 "bin" then some name else none
  | _ => none

/-- The program of a name that is always at hand, if it is one. -/
def common? (name : Bytes) : Option Program :=
  [(utf8 "cat", cat), (utf8 "echo", echo), (utf8 "true", succeed), (utf8 "false", fail)].lookup name

/-- The programs that are always at hand, in both folders. -/
def basic : Programs where
  at? path := (nameIn? path).bind common?

/-- No program at all. -/
def none : Programs where
  at? _ := Option.none

end Programs

/-! ## Running scripts -/

/-- A script to be run. -/
structure Call where
  /-- The name of the evaluator and its first arguments, between blanks. -/
  command : Bytes
  /-- The name of the script. -/
  script : Bytes
  /-- What follows the script. -/
  arguments : List Bytes
  deriving DecidableEq, Repr

namespace Call

/-- The name of the evaluator. -/
def program (call : Call) : Bytes :=
  call.command.fields.headD standardCommand

def allArguments (call : Call) : List Bytes :=
  call.command.fields.drop 1 ++ call.script :: call.arguments

end Call

/-- Why a program cannot be started. -/
inductive Refusal where
  /-- What stands in the way of its file. -/
  | file (cause : FileTree.Cause)
  /-- An argument holds a byte that no argument may hold. -/
  | invalidArgument
  /-- An argument is too long. -/
  | longArgument
  deriving DecidableEq, Repr

def Refusal.message : Refusal → Bytes
  | .file cause => cause.message
  | .invalidArgument => utf8 "invalid argument"
  | .longArgument => utf8 "argument list too long"

/-- Why a script did not run to a good end. -/
inductive Failure where
  /-- No program has the evaluator's name. -/
  | notFound (program : Bytes)
  /-- The evaluator's name is that of a folder. -/
  | folder (program : Bytes)
  /-- The evaluator cannot be started. -/
  | refused (path : Bytes) (refusal : Refusal)
  /-- The run was called off before it began. -/
  | cancelled
  /-- The evaluator ended with a status that is not zero. -/
  | status (number : Nat)
  /-- A stream of the evaluator failed. -/
  | stream (message : Bytes)
  deriving DecidableEq, Repr

def Failure.message : Failure → Bytes
  | .notFound program =>
      utf8 "exec: " ++ program.quoted ++ utf8 ": executable file not found in $PATH"
  | .folder program =>
      utf8 "exec: " ++ program.quoted ++ utf8 ": " ++ FileTree.Cause.isFolder.message
  | .refused path refusal => utf8 "fork/exec " ++ path ++ utf8 ": " ++ refusal.message
  | .cancelled => utf8 "context canceled"
  | .status number => utf8 "exit status " ++ Bytes.ofNat number
  | .stream message => message

/-- What came of running a script. -/
structure Run where
  /-- What the evaluator wrote to the standard output. -/
  out : Bytes := []
  /-- What the evaluator wrote to the standard error. -/
  err : Bytes := []
  /-- Why it failed, if it did. -/
  failure : Option Failure := none
  deriving DecidableEq, Repr

/-- The path of an evaluator.  A name with a slash is a path, but the root alone is
none; any other name has to be the name of a program. -/
def locate (programs : Programs) (name : Bytes) : Except Failure Bytes :=
  if name = [Path.slash] then
    .error (.folder name)
  else if Path.slash ∈ name then
    .ok name
  else
    match programs.find? name with
    | some path => .ok path
    | none => .error (.notFound name)

/-- The number of bytes that an argument has to stay below. -/
def argumentLimit : Nat :=
  131072

/-- The program at a path, if it can be started with the given arguments. -/
def start (programs : Programs) (files : FileTree) (path : Bytes) (arguments : List Bytes) :
    Except Refusal Program :=
  if 0 ∈ path then
    .error (.file .invalidName)
  else if arguments.any (0 ∈ ·) then
    .error .invalidArgument
  else
    match programs.at? path with
    | none => .error (.file (files.refusal path))
    | some program =>
        if arguments.any (argumentLimit ≤ ·.length) then
          .error .longArgument
        else
          .ok program

/-- Runs a script. -/
def run (programs : Programs) (cancelled : Bool) (files : FileTree) (input : Bytes)
    (call : Call) : Run :=
  match locate programs call.program with
  | .error failure => { failure := some failure }
  | .ok path =>
      if cancelled then
        { failure := some .cancelled }
      else
        match start programs files path call.allArguments with
        | .error refusal => { failure := some (.refused path refusal) }
        | .ok program =>
            let effect := program files input call.allArguments
            ⟨effect.out, effect.err,
              if effect.status = 0 then none else some (.status effect.status)⟩

/-- The report of a failure, which names the evaluator and the script. -/
def report (call : Call) (failure : Failure) : Report :=
  .during (call.program ++ utf8 " " ++ call.script) (.outside failure.message)

end Evaluator

end TriforceScript
