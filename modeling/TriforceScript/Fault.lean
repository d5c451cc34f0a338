import TriforceScript.JavaScript
import TriforceScript.Token.Scan
import TriforceScript.Tree.Reader

/-!
# Faults

What can go wrong between a source text and its JavaScript, and how faults are
reported together with failures from outside.
-/

namespace TriforceScript

/-- The steps of a compilation that can fail. -/
inductive Step where
  | scan
  | parse
  | emit
  deriving DecidableEq, Repr

namespace Step

def name : Step → Bytes
  | .scan => utf8 "scan error"
  | .parse => utf8 "parse error"
  | .emit => utf8 "emit error"

/-- The step with a number, from one. -/
def ofCode? (code : Int) : Option Step :=
  if code < 1 then none else [Step.scan, .parse, .emit][code.toNat - 1]?

/-- The name for a failure in a step that may be unknown. -/
def nameOf (step : Option Step) : Bytes :=
  (step.map name).getD (utf8 "error")

end Step

/-- Why a source text has no JavaScript text. -/
inductive Fault where
  | scan (fault : ScanFault)
  | parse (fault : ParseFault)
  | emit (fault : EmitFault)
  deriving DecidableEq, Repr

namespace Fault

def step : Fault → Step
  | .scan _ => .scan
  | .parse _ => .parse
  | .emit _ => .emit

/-- The line of the fault, or zero if it has no place in a source text. -/
def line : Fault → Int
  | .scan fault => fault.line
  | .parse fault => fault.line
  | .emit _ => 0

def message : Fault → Bytes
  | .scan fault => fault.message
  | .parse fault => fault.message
  | .emit fault => fault.message

/-- Whether more source text could mend the fault. -/
def incomplete : Fault → Bool
  | .scan fault => fault.incomplete
  | .parse fault => fault.incomplete
  | .emit _ => false

end Fault

/-! ## Reports -/

/-- What is known about a failed compilation. -/
structure Diagnostic where
  /-- The step that failed. -/
  step : Option Step := none
  /-- The line, or zero if there is none. -/
  line : Int := 0
  /-- The wording of the cause. -/
  cause : Option Bytes := none
  /-- Whether more source text could mend it. -/
  incomplete : Bool := false
  deriving DecidableEq, Repr

/-- The wording of a diagnostic, which is empty without a cause. -/
def Diagnostic.message (diagnostic : Diagnostic) : Bytes :=
  diagnostic.cause.getD []

/-- What is known about a fault. -/
def Fault.diagnostic (fault : Fault) : Diagnostic :=
  ⟨some fault.step, fault.line, some fault.message, fault.incomplete⟩

/-- A failure as it is passed on to the caller. -/
inductive Report where
  /-- A failed compilation. -/
  | of (diagnostic : Diagnostic)
  /-- A failure outside of compilation. -/
  | outside (message : Bytes)
  /-- A failure in the course of something else. -/
  | during (activity : Bytes) (inner : Report)
  deriving DecidableEq, Repr

namespace Report

def ofFault (fault : Fault) : Report :=
  .of fault.diagnostic

def message : Report → Bytes
  | .of diagnostic => diagnostic.message
  | .outside message => message
  | .during activity inner => activity ++ utf8 ": " ++ inner.message

/-- The failed compilation behind a report, if there is one. -/
def diagnostic? : Report → Option Diagnostic
  | .of diagnostic => some diagnostic
  | .outside _ => none
  | .during _ inner => inner.diagnostic?

def step? (report : Report) : Option Step :=
  report.diagnostic?.bind Diagnostic.step

/-- Whether more source text could mend the failure. -/
def incomplete (report : Report) : Bool :=
  (report.diagnostic?.map Diagnostic.incomplete).getD false

end Report

end TriforceScript
