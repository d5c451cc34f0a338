import TriforceScript.Colour
import TriforceScript.Compilation

/-!
# Replies

A session collects lines until they can be compiled as one chunk.  What it has
to tell after a line is a reply.
-/

namespace TriforceScript

namespace Session

/-- How the input of a session ends. -/
inductive Ending where
  /-- There is no more of it. -/
  | eof
  /-- It cannot be read any further. -/
  | failure (message : Bytes)
  deriving DecidableEq, Repr

/-- What a session tells after a line. -/
inductive Reply where
  /-- Nothing, because there is nothing to compile yet. -/
  | silent
  /-- The code of a chunk. -/
  | code (chunk text : Bytes)
  /-- Why a chunk has no code. -/
  | fault (chunk : Bytes) (cause : Fault)
  /-- Why the input cannot be read. -/
  | unreadable (message : Bytes)
  deriving DecidableEq, Repr

namespace Reply

/-- What a reply writes to the standard output. -/
def out : Reply → Bytes
  | .code _ text => text
  | _ => []

/-- What a reply writes to the standard error, with faults in red if colours are
on. -/
def err (colours : Bool) : Reply → Bytes
  | .fault _ cause => Colour.red.paintLine colours (utf8 "error: " ++ cause.message)
  | .unreadable message => utf8 "read error: " ++ message ++ utf8 "\n"
  | _ => []

/-- The chunk that a reply gives the code of. -/
def accepted? : Reply → Option Bytes
  | .code chunk _ => some chunk
  | _ => none

end Reply

/-- Answers to a chunk that will not grow any more. -/
def answerFinal (chunk : Bytes) : Reply :=
  match compileSnippet chunk with
  | .ok text => .code chunk text
  | .error fault => .fault chunk fault

/-- Answers to a chunk that may grow, together with what is kept of it for the
next line. -/
def answer (chunk : Bytes) : Reply × Bytes :=
  match compileSnippet chunk with
  | .ok text => (.code chunk text, [])
  | .error fault => if fault.incomplete then (.silent, chunk) else (.fault chunk fault, [])

end Session

end TriforceScript
