import TriforceScript.Token

/-!
# Expectations

What a program cannot do without at some place, and the fault of tokens that do
without it.
-/

namespace TriforceScript

/-- What a program cannot do without at some place. -/
inductive Expectation where
  | expression
  | typeOpen
  | typeName
  | typeClose
  | typeArrow
  | branchArrow
  | branchDoubleArrow
  | leftParen
  | rightParen
  | leftBrace
  | rightBrace
  deriving DecidableEq, Repr

def Expectation.message : Expectation → Bytes
  | .expression => utf8 "expression expected"
  | .typeOpen => utf8 "[ expected after ::"
  | .typeName => utf8 "type name expected"
  | .typeClose => utf8 "] expected"
  | .typeArrow => utf8 "-> expected"
  | .branchArrow => utf8 "-> expected after if"
  | .branchDoubleArrow => utf8 "=> expected after the condition"
  | .leftParen => utf8 "( expected"
  | .rightParen => utf8 ") expected"
  | .leftBrace => utf8 "\x7b expected"
  | .rightBrace => utf8 "\x7d expected"

/-- Why tokens are no program: what was expected, and the token found instead. -/
structure ParseFault where
  /-- What was expected. -/
  expected : Expectation
  /-- The token found instead. -/
  found : Token
  deriving DecidableEq, Repr

namespace ParseFault

/-- The line of the token that was found. -/
def line (fault : ParseFault) : Int :=
  fault.found.pos.line

/-- Whether more tokens could mend the fault. -/
def incomplete (fault : ParseFault) : Bool :=
  fault.found.kind == .eof

def message (fault : ParseFault) : Bytes :=
  fault.expected.message ++ utf8 " at line " ++ Bytes.ofInt fault.line ++
    utf8 ", found " ++ fault.found.kind.name ++ utf8 " (" ++ fault.found.text ++ utf8 ")"

end ParseFault

end TriforceScript
