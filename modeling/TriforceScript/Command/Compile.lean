import TriforceScript.Command.Console
import TriforceScript.Command.Flags
import TriforceScript.Colour
import TriforceScript.Source

/-!
# Compiling

One source text is read, compiled and written, and the code is run if that is
asked for.  Every step tells about itself on the status stream, which is the
standard error when the code goes to the standard output.
-/

namespace TriforceScript

namespace Command

/-- A source text to be compiled. -/
structure Job where
  /-- The options. -/
  options : Options
  /-- Whether status lines are coloured. -/
  colours : Bool
  /-- The name of the source file, or a minus sign for the standard input. -/
  script : Bytes
  /-- The arguments for the code when it is run. -/
  arguments : List Bytes
  deriving DecidableEq, Repr

/-- The name that stands for a standard stream. -/
def standardStream : Bytes :=
  utf8 "-"

def tokenLine (token : Token) : Bytes :=
  utf8 "Token: " ++ token.kind.name ++ utf8 " (" ++ token.text ++ utf8 ") at line " ++
    Bytes.ofInt token.pos.line ++ utf8 ", column " ++ Bytes.ofInt token.pos.column ++
    utf8 "\n"

namespace Job

/-- Whether the code goes to the standard output. -/
def toOutput (job : Job) : Bool :=
  job.options.output = standardStream

def status (job : Job) : Stream :=
  if job.toOutput then .err else .out

section

variable {m : Type → Type} [Monad m]

/-- Writes a status line in a colour. -/
def tell (job : Job) (console : Console m) (colour : Colour) (text : Bytes) :
    ExceptT Report m Unit :=
  console.say job.status (colour.paintLine job.colours text)

/-- Reads the source text. -/
def readSource (job : Job) (console : Console m) : ExceptT Report m Bytes := do
  if job.options.verbose then
    job.tell console .gray (utf8 "📖 Reading source file...")
  if job.script = standardStream then
    ExceptT.mk console.readInput
  else
    let content ← ExceptT.mk (console.readFile job.script)
    return Source.ofContent content

/-- Writes the notes that were taken while the source text was read. -/
def tellNotes (job : Job) (console : Console m) (notes : List Note) :
    ExceptT Report m Unit :=
  console.say .err
    (notes.flatMap fun note =>
      Colour.gray.paintLine job.colours (utf8 "trace: " ++ note.message))

/-- Writes what a compilation consists of. -/
def tellCompilation (job : Job) (console : Console m) (compilation : Compilation) :
    ExceptT Report m Unit := do
  console.say job.status (compilation.tokens.flatMap tokenLine)
  console.say job.status
    (Colour.gray.paint job.colours
      (Bytes.ofNat compilation.program.length ++ utf8 " top-level statements\n"))

def compileSource (job : Job) (console : Console m) (source : Bytes) :
    ExceptT Report m Compilation := do
  let compiled := TriforceScript.compile source
  if job.options.verbose then
    job.tell console .gray (utf8 "🔍 Scanning, parsing and generating JavaScript...")
    job.tellNotes console compiled.notes
  let compilation ← ExceptT.mk (pure (compiled.result.mapError Report.ofFault))
  if job.options.verbose then
    job.tellCompilation console compilation
  return compilation

def writeCode (job : Job) (console : Console m) (code : Bytes) : ExceptT Report m Unit := do
  if job.toOutput then
    ExceptT.mk (console.deliver code)
  else
    ExceptT.mk (console.writeFile job.options.output code)
  job.tell console .green (utf8 "✨ Compilation succeeded!")
  job.tell console .gray (utf8 "📝 Code written to " ++ job.options.output)

/-- The line above and below what the code writes. -/
def rule : Bytes :=
  utf8 "-------------------"

def runCode (job : Job) (console : Console m) : ExceptT Report m Unit := do
  if job.toOutput then
    throw (.outside (utf8 "-run needs an output file, not stdout"))
  job.tell console .blue (utf8 "\n🚀 Running the program:")
  job.tell console .yellow rule
  let result ←
    ExceptT.lift
      (console.evaluate ⟨job.options.evaluator, job.options.output, job.arguments⟩)
  job.tell console .yellow rule
  ExceptT.mk (pure result)

/-- Does all steps of a job, up to the first that fails. -/
def steps (job : Job) (console : Console m) : ExceptT Report m Unit := do
  job.tell console .blue (utf8 "🔮 TriforceScript Compiler")
  let source ← job.readSource console
  let compilation ← job.compileSource console source
  job.writeCode console compilation.code
  if job.options.run then
    job.runCode console

/-- Compiles and gives the status to end with.  A failure is reported in red. -/
def compile (job : Job) (console : Console m) : m Nat := do
  match ← (job.steps console).run with
  | .ok _ => return 0
  | .error report =>
      console.say .err (Colour.red.paintLine job.colours (utf8 "❌ Compilation error:"))
      console.say .err
        (Colour.red.paintLine job.colours (utf8 "triforce: " ++ report.message))
      return 1

end

end Job

end Command

end TriforceScript
