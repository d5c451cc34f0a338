import TriforceScript.Text.Rope
import TriforceScript.Tree

/-!
# JavaScript

The JavaScript text of a program.  Strings and names are written as they are, and
operators without parentheses; what a declaration says about its type is left out.
A tree with a hole in it, or with an expression for a statement, has no text.
-/

namespace TriforceScript

/-- Why a tree has no JavaScript text. -/
inductive EmitFault where
  /-- A node is missing. -/
  | missingNode
  /-- A block is missing. -/
  | missingBlock
  /-- A node has a shape that cannot be written. -/
  | unsupported (kind : Node.Kind)
  deriving DecidableEq, Repr

def EmitFault.message : EmitFault → Bytes
  | .missingNode => utf8 "missing node"
  | .missingBlock => utf8 "missing block"
  | .unsupported kind => utf8 "unsupported node type: " ++ kind.name

namespace JavaScript

/-- The line that every generated file starts with. -/
def banner : Bytes :=
  utf8 "// Generated by TriforceScript"

/-- The blanks in front of a line at some depth of blocks. -/
def indent (depth : Nat) : Bytes :=
  List.replicate (2 * depth) Bytes.space

/-- An operator between the texts of its operands. -/
def infixed (operator : Bytes) (left right : Rope) : Rope :=
  if operator = utf8 "->" then
    left ++ utf8 " + \" \" + " ++ right
  else if operator = utf8 "==" then
    left ++ utf8 " === " ++ right
  else
    utf8 "(" ++ left ++ utf8 " " ++ operator ++ utf8 " " ++ right ++ utf8 ")"

mutual

/-- The text of a node at some depth of blocks.  Only a statement is indented. -/
def node (depth : Nat) : Node → Except EmitFault Rope
  | .comment text _ => .ok (indent depth ++ utf8 "// " ++ text)
  | .declaration name _ value _ => do
      let value ← node 0 value
      return indent depth ++ utf8 "let " ++ name ++ utf8 " = " ++ value ++ utf8 ";"
  | .assignment name value _ => do
      let value ← node 0 value
      return indent depth ++ name ++ utf8 " = " ++ value ++ utf8 ";"
  | .branch condition body otherwise _ => do
      let condition ← node 0 condition
      let body ← block depth body
      let branch := indent depth ++ utf8 "if (" ++ condition ++ utf8 ") " ++ body
      if otherwise.isMissing then
        return branch
      else
        let otherwise ← block depth otherwise
        return branch ++ utf8 " else " ++ otherwise
  | .block content => block depth content
  | .write arguments _ => do
      let arguments ← nodes 0 arguments
      return indent depth ++ utf8 "console.log(" ++ .separated (utf8 ", ") arguments ++
        utf8 ");"
  | .expression _ _ => .error (.unsupported .expression)
  | .binary operator left right _ => do
      let left ← node 0 left
      let right ← node 0 right
      return infixed operator left right
  | .identifier name _ => .ok name
  | .string value _ => .ok (Bytes.quote :: value ++ [Bytes.quote])
  | .missing => .error .missingNode

/-- The text of a block.  Its braces belong to the lines around them, and its
statements stand one step deeper. -/
def block (depth : Nat) : Block → Except EmitFault Rope
  | .braced statements _ => do
      let lines ← nodes (depth + 1) statements
      return utf8 "\x7b\n" ++ .separated (utf8 "\n") lines ++ utf8 "\n" ++ indent depth ++
        utf8 "\x7d"
  | .missing => .error .missingBlock

/-- The texts of nodes, up to the first one that has none. -/
def nodes (depth : Nat) : List Node → Except EmitFault (List Rope)
  | [] => .ok []
  | first :: rest => do
      let first ← node depth first
      let rest ← nodes depth rest
      return first :: rest

end

/-- The statements of a program, a line feed behind each. -/
def statements (program : Program) : Except EmitFault Bytes :=
  (nodes 0 program).map fun texts => texts.flatMap fun text => text.onto [Bytes.lineFeed]

/-- A program as a file of its own, with the banner and an empty line in front. -/
def file (program : Program) : Except EmitFault Bytes :=
  (statements program).map fun text => banner ++ utf8 "\n\n" ++ text

end JavaScript

end TriforceScript
