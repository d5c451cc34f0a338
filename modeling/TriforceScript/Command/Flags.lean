import TriforceScript.Evaluator

/-!
# Flags

The options of the command and the flags that set them.  Flags stand in front of
the other arguments, with one minus sign or two.
-/

namespace TriforceScript

namespace Command

/-- What flags can change. -/
structure Options where
  /-- The name of the file for the code, or a minus sign for the standard output. -/
  output : Bytes := utf8 "output.js"
  /-- Whether to tell about every step. -/
  verbose : Bool := false
  /-- Whether to run the code. -/
  run : Bool := false
  /-- The command that runs the code. -/
  evaluator : Bytes := Evaluator.standardCommand
  /-- Whether to do without colours. -/
  noColours : Bool := false
  /-- Whether to tell the version and do no more. -/
  showVersion : Bool := false
  deriving DecidableEq, Repr

namespace Flag

/-- What follows a flag. -/
inductive Setter where
  /-- Nothing or a truth value. -/
  | switch (set : Options → Bool → Options)
  /-- A text. -/
  | text (set : Options → Bytes → Options) (current : Options → Bytes)

end Flag

/-- A flag. -/
structure Flag where
  /-- The name behind the minus sign. -/
  name : Bytes
  /-- What the flag does, for the reader of the usage. -/
  help : Bytes
  /-- What the flag does to the options. -/
  setter : Flag.Setter

namespace Flag

def setOutput : Setter :=
  .text (fun options output => { options with output }) Options.output

def setVerbose : Setter :=
  .switch fun options verbose => { options with verbose }

/-- All flags, in the order of their names. -/
def all : List Flag :=
  [⟨utf8 "no-color", utf8 "Disable colored output",
      .switch fun options noColours => { options with noColours }⟩,
    ⟨utf8 "node", utf8 "JavaScript evaluator used by -run",
      .text (fun options evaluator => { options with evaluator }) Options.evaluator⟩,
    ⟨utf8 "o", utf8 "JavaScript output file (- for stdout)", setOutput⟩,
    ⟨utf8 "output", utf8 "JavaScript output file (- for stdout)", setOutput⟩,
    ⟨utf8 "run", utf8 "Run the generated program after writing it",
      .switch fun options run => { options with run }⟩,
    ⟨utf8 "v", utf8 "Show compilation details", setVerbose⟩,
    ⟨utf8 "verbose", utf8 "Show compilation details", setVerbose⟩,
    ⟨utf8 "version", utf8 "Show version",
      .switch fun options showVersion => { options with showVersion }⟩]

def find? (name : Bytes) : Option Flag :=
  all.find? (·.name = name)

/-- A truth value as it may be written behind a flag. -/
def truth? (text : Bytes) : Option Bool :=
  if text ∈ ["1", "t", "T", "true", "TRUE", "True"].map utf8 then
    some true
  else if text ∈ ["0", "f", "F", "false", "FALSE", "False"].map utf8 then
    some false
  else
    none

/-! ## Usage -/

/-- A flag in the usage, with the value that it has in `defaults`. -/
def usage (defaults : Options) (flag : Flag) : Bytes :=
  let head := utf8 "  -" ++ flag.name
  match flag.setter with
  | .switch _ =>
      head ++ (if flag.name.length = 1 then utf8 "\t" else utf8 "\n    \t") ++ flag.help ++
        utf8 "\n"
  | .text _ current =>
      head ++ utf8 " string\n    \t" ++ flag.help ++
        (if current defaults = [] then
          []
        else
          utf8 " (default " ++ (current defaults).quoted ++ utf8 ")") ++
        utf8 "\n"

end Flag

/-- How the command is used, when the options are `defaults` without any flag. -/
def usage (defaults : Options) : Bytes :=
  utf8 "Usage: triforce [options] <file.tri | ->\n" ++
    utf8 "\nWithout a file, starts an interactive translator.\n" ++
    utf8 "\nOptions:\n" ++ Flag.all.flatMap (Flag.usage defaults)

/-! ## Reading arguments -/

/-- Why arguments cannot be used. -/
inductive FlagFault where
  /-- The usage is asked for. -/
  | help
  /-- An argument starts like a flag but has no name. -/
  | badForm (argument : Bytes)
  /-- There is no flag with the name. -/
  | undefined (name : Bytes)
  /-- The flag needs a value and is the last argument. -/
  | needsValue (name : Bytes)
  /-- The value of the flag is no truth value. -/
  | badTruth (value name : Bytes)
  deriving DecidableEq, Repr

namespace FlagFault

/-- The wording of the fault, in front of the usage. -/
def message : FlagFault → Bytes
  | .help => []
  | .badForm argument => utf8 "bad flag syntax: " ++ argument ++ utf8 "\n"
  | .undefined name => utf8 "flag provided but not defined: -" ++ name ++ utf8 "\n"
  | .needsValue name => utf8 "flag needs an argument: -" ++ name ++ utf8 "\n"
  | .badTruth value name =>
      utf8 "invalid boolean value " ++ value.quoted ++ utf8 " for -" ++ name ++
        utf8 ": parse error\n"

/-- The status that the command ends with. -/
def status : FlagFault → Nat
  | .help => 0
  | _ => 2

end FlagFault

/-- The forms of arguments. -/
inductive Argument where
  /-- No flag. -/
  | operand
  /-- Two minus signs: no flag follows. -/
  | divider
  /-- A flag without a proper name. -/
  | badForm
  /-- A flag, perhaps with a value behind an equals sign. -/
  | flag (name : Bytes) (value : Option Bytes)
  deriving DecidableEq, Repr

namespace Argument

/-- The byte in front of flags. -/
abbrev minus : UInt8 := 0x2D

/-- The byte in front of values. -/
abbrev equals : UInt8 := 0x3D

/-- The form of an argument whose part behind one or two minus signs is `body`. -/
def ofBody (body : Bytes) : Argument :=
  if body.head? ∈ [none, some minus, some equals] then
    .badForm
  else
    .flag (body.takeWhile (· != equals))
      (if equals ∈ body then some ((body.dropWhile (· != equals)).drop 1) else none)

def ofBytes (argument : Bytes) : Argument :=
  match argument with
  | first :: second :: rest =>
      if first ≠ minus then
        .operand
      else if second ≠ minus then
        ofBody (second :: rest)
      else if rest = [] then
        .divider
      else
        ofBody rest
  | _ => .operand

end Argument

/-- Options and what the flags leave of the arguments. -/
structure Invocation where
  /-- The options. -/
  options : Options
  /-- The arguments that are no flags. -/
  operands : List Bytes
  deriving DecidableEq, Repr

/-- What a flag without a definition is about. -/
def FlagFault.ofUndefined (name : Bytes) : FlagFault :=
  if name = utf8 "help" ∨ name = utf8 "h" then .help else .undefined name

/-- Reads the flags in front of arguments. -/
def readFlags (options : Options) : List Bytes → Except FlagFault Invocation
  | [] => .ok ⟨options, []⟩
  | argument :: rest =>
      match Argument.ofBytes argument with
      | .operand => .ok ⟨options, argument :: rest⟩
      | .divider => .ok ⟨options, rest⟩
      | .badForm => .error (.badForm argument)
      | .flag name value =>
          match (Flag.find? name).map Flag.setter with
          | none => .error (.ofUndefined name)
          | some (.switch set) =>
              match value with
              | none => readFlags (set options true) rest
              | some value =>
                  match Flag.truth? value with
                  | some truth => readFlags (set options truth) rest
                  | none => .error (.badTruth value name)
          | some (.text set _) =>
              match value with
              | some value => readFlags (set options value) rest
              | none =>
                  match rest with
                  | [] => .error (.needsValue name)
                  | value :: rest => readFlags (set options value) rest

end Command

end TriforceScript
