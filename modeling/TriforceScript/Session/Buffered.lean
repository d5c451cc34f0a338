import TriforceScript.Session.Reply
import TriforceScript.Text.Lines

/-!
# Sessions without a terminal

The input is read line by line, each line with its line feed, and answered as soon
as the lines since the last answer make up a chunk.
-/

namespace TriforceScript

namespace Session

namespace Buffered

/-- The reply to the end of the input, when the lines `pending` wait for an answer
and `remainder` stands behind the last line feed. -/
def last (ending : Ending) (pending remainder : Bytes) : Reply :=
  match ending with
  | .failure message => .unreadable message
  | .eof =>
      if pending = [] ∧ remainder = [] then .silent else answerFinal (pending ++ remainder)

/-- The replies to lines, when the lines `pending` wait for an answer. -/
def repliesFrom (ending : Ending) (remainder : Bytes) :
    Bytes → List Bytes → List Reply
  | pending, [] => [last ending pending remainder]
  | pending, line :: lines =>
      let (reply, pending) := answer (pending ++ line)
      reply :: repliesFrom ending remainder pending lines

/-- The replies to an input, one for every line and one for the end. -/
def replies (input : Bytes) (ending : Ending) : List Reply :=
  repliesFrom ending input.splitLines.2 [] input.splitLines.1

/-- All that a session writes to the standard output. -/
def out (input : Bytes) (ending : Ending) : Bytes :=
  (replies input ending).flatMap Reply.out

/-- All that a session writes to the standard error. -/
def err (input : Bytes) (ending : Ending) : Bytes :=
  (replies input ending).flatMap (Reply.err false)

end Buffered

end Session

end TriforceScript
