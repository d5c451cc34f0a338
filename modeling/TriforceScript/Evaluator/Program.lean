import TriforceScript.FileTree

/-!
# Programs

A program that can be run reads files and an input, writes to two streams and ends
with a status.  It changes no files.
-/

namespace TriforceScript

namespace Evaluator

/-- What a program does: what it writes, and the status that it ends with. -/
structure Effect where
  /-- What it writes to the standard output. -/
  out : Bytes := []
  /-- What it writes to the standard error. -/
  err : Bytes := []
  /-- The status, which is zero for success. -/
  status : Nat := 0
  deriving DecidableEq, Repr

/-- One thing after another; a failure of either is a failure. -/
def Effect.andThen (first second : Effect) : Effect :=
  ⟨first.out ++ second.out, first.err ++ second.err, max first.status second.status⟩

/-- A program: what it does with some files, an input and arguments. -/
abbrev Program := FileTree → Bytes → List Bytes → Effect

/-- Does nothing, and so succeeds. -/
def succeed : Program :=
  fun _ _ _ => {}

/-- Does nothing, and fails. -/
def fail : Program :=
  fun _ _ _ => ⟨[], [], 1⟩

end Evaluator

end TriforceScript
