import TriforceScript.Position

/-!
# Program trees

The tree of a program.  Any node may stand in any place and every child may be
absent, so that trees made by hand can be worse than those of source texts.
-/

namespace TriforceScript

mutual

/-- A statement or an expression. -/
inductive Node where
  /-- A line of comment. -/
  | comment (text : Bytes) (pos : Position)
  /-- The introduction of a variable, with a type that documents it. -/
  | declaration (name type : Bytes) (value : Node) (pos : Position)
  /-- A new value for a variable. -/
  | assignment (name : Bytes) (value : Node) (pos : Position)
  /-- A block to be run on a condition, and one to be run otherwise. -/
  | branch (condition : Node) (body otherwise : Block) (pos : Position)
  /-- A block by itself. -/
  | block (content : Block)
  /-- The output of some values. -/
  | write (arguments : List Node) (pos : Position)
  /-- An expression by itself. -/
  | expression (value : Node) (pos : Position)
  /-- Two operands and the operator between them. -/
  | binary (operator : Bytes) (left right : Node) (pos : Position)
  /-- The value of a variable. -/
  | identifier (name : Bytes) (pos : Position)
  /-- A string, as it is written between its quotes. -/
  | string (value : Bytes) (pos : Position)
  /-- No node at all. -/
  | missing

/-- A list of statements between braces. -/
inductive Block where
  /-- The statements and the place of the opening brace. -/
  | braced (statements : List Node) (pos : Position)
  /-- No block at all. -/
  | missing

end

instance : Inhabited Node :=
  ⟨.missing⟩

instance : Inhabited Block :=
  ⟨.missing⟩

/-- Whether there is no block. -/
def Block.isMissing : Block → Bool
  | .braced _ _ => false
  | .missing => true

/-- A whole program: its statements from first to last. -/
abbrev Program := List Node

namespace Node

/-- The shapes of nodes. -/
inductive Kind where
  | comment
  | declaration
  | assignment
  | branch
  | block
  | write
  | expression
  | binary
  | identifier
  | string
  deriving DecidableEq, Repr

namespace Kind

/-- The shapes in the order of their numbers, from one. -/
def numbered : List Kind :=
  [.comment, .declaration, .assignment, .branch, .block, .write, .expression, .binary,
    .identifier, .string]

def name : Kind → Bytes
  | .comment => utf8 "Comment"
  | .declaration => utf8 "TypeDeclaration"
  | .assignment => utf8 "Assignment"
  | .branch => utf8 "IfStatement"
  | .block => utf8 "Block"
  | .write => utf8 "WriteStatement"
  | .expression => utf8 "ExpressionStatement"
  | .binary => utf8 "BinaryExpression"
  | .identifier => utf8 "Identifier"
  | .string => utf8 "StringLiteral"

/-- The shape with a number. -/
def ofCode? (code : Int) : Option Kind :=
  if code < 1 then none else numbered[code.toNat - 1]?

/-- The name of the shape with a number. -/
def nameOfCode (code : Int) : Bytes :=
  ((ofCode? code).map name).getD (utf8 "unknown")

end Kind

def kind? : Node → Option Kind
  | .comment .. => some .comment
  | .declaration .. => some .declaration
  | .assignment .. => some .assignment
  | .branch .. => some .branch
  | .block _ => some .block
  | .write .. => some .write
  | .expression .. => some .expression
  | .binary .. => some .binary
  | .identifier .. => some .identifier
  | .string .. => some .string
  | .missing => none

def pos : Node → Position
  | .comment _ pos => pos
  | .declaration _ _ _ pos => pos
  | .assignment _ _ pos => pos
  | .branch _ _ _ pos => pos
  | .block (.braced _ pos) => pos
  | .block .missing => .origin
  | .write _ pos => pos
  | .expression _ pos => pos
  | .binary _ _ _ pos => pos
  | .identifier _ pos => pos
  | .string _ pos => pos
  | .missing => .origin

end Node

end TriforceScript
