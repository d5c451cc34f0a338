import TriforceScript.Text.Bytes

/-!
# Notes

What the reader of a program has to tell about its decisions.
-/

namespace TriforceScript

/-- A decision taken while a program is read. -/
inductive Note where
  /-- A statement starts with a name. -/
  | named (name : Bytes) (line : Int)
  /-- The name gets a new value, after a double colon. -/
  | reassigned (name : Bytes)
  /-- The name is introduced with a type. -/
  | declared (name : Bytes)
  /-- The name gets a new value, after an arrow. -/
  | assigned (name : Bytes)
  /-- The name is left out of the program. -/
  | discarded (name : Bytes)
  /-- A condition follows. -/
  | branch (line : Int)
  /-- Arguments to write follow. -/
  | write (line : Int)
  deriving DecidableEq, Repr

def Note.message : Note → Bytes
  | .named name line =>
      utf8 "identifier " ++ name ++ utf8 " at line " ++ Bytes.ofInt line
  | .reassigned name => utf8 "identifier after ::, " ++ name ++ utf8 " is reassigned"
  | .declared name => utf8 "type declaration for " ++ name
  | .assigned name => utf8 "assignment to " ++ name
  | .discarded name =>
      utf8 "identifier " ++ name ++ utf8 " not followed by :: or ->, discarded"
  | .branch line => utf8 "if statement at line " ++ Bytes.ofInt line
  | .write line => utf8 "write statement at line " ++ Bytes.ofInt line

/-- A result and the notes taken on the way to it, the first one first. -/
structure Noted (α : Type) where
  /-- The notes taken. -/
  notes : List Note
  /-- What came of it. -/
  result : α

end TriforceScript
