import TriforceScript.Session.History
import TriforceScript.Session.Reply
import TriforceScript.Text.Blank

/-!
# Sessions with prompts

Every line is asked for with a prompt, which is another one while a chunk is
incomplete.  Chunks that have code go into the history.
-/

namespace TriforceScript

namespace Session

namespace Prompted

/-- The prompt for the next line, when the lines `pending` wait for an answer. -/
def prompt (pending : Bytes) : Bytes :=
  if pending = [] then utf8 "triforce> " else utf8 ".... "

/-- Adds the chunk that a reply gives the code of, without the blanks around it,
unless nothing is left of it. -/
def remember (history : History) (reply : Reply) : History :=
  match reply.accepted? with
  | none => history
  | some chunk => if chunk.trim = [] then history else history.append chunk.trim

/-- What came of a session. -/
structure Outcome where
  /-- All that was written to the standard output. -/
  out : Bytes
  /-- All that was written to the standard error. -/
  err : Bytes
  /-- The history at the end. -/
  history : History
  deriving DecidableEq, Repr

/-- The end of a session.  An incomplete chunk is forgotten. -/
def close (ending : Ending) (pending : Bytes) (history : History) : Outcome :=
  match ending with
  | .eof => ⟨prompt pending ++ utf8 "\n", [], history⟩
  | .failure message => ⟨prompt pending, (Reply.unreadable message).err false, history⟩

/-- Goes on with a session in which the lines `pending` wait for an answer. -/
def runFrom (colours : Bool) (ending : Ending) :
    Bytes → History → List Bytes → Outcome
  | pending, history, [] => close ending pending history
  | pending, history, line :: lines =>
      let (reply, kept) := answer (pending ++ line ++ utf8 "\n")
      let later := runFrom colours ending kept (remember history reply) lines
      ⟨prompt pending ++ reply.out ++ later.out, reply.err colours ++ later.err,
        later.history⟩

/-- A session on lines without their ends, with the items of earlier sessions. -/
def run (colours : Bool) (history : History) (lines : List Bytes) (ending : Ending) :
    Outcome :=
  runFrom colours ending [] history lines

/-- A session on an input of which no more than `limit` bytes are taken for a
line.  Every piece of a longer line counts as a line. -/
def runOn (colours : Bool) (history : History) (limit : Nat) (input : Bytes)
    (ending : Ending) : Outcome :=
  run colours history ((input.pieces limit).map Bytes.Piece.bytes) ending

end Prompted

end Session

end TriforceScript
