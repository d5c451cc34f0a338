import TriforceScript.Tree.Reader

/-!
# Derivations

The grammar of programs, given by its derivations:

* a program is a list of statements;
* a statement is a comment, `NAME :: expression` with an expression that starts
  with a name, `NAME :: [ NAME ] -> expression`, `NAME -> expression`, or a tail;
* a tail is `if -> expression => { statements }`, `write ( arguments )` or an
  expression.  Any name may stand in front of it and leaves no trace in the tree.
  It must be there if the tail starts with a name;
* an expression is a chain of joins with `==` between them, a join a chain of
  operands with `->` between them, and an operand a string or a name.

A derivation holds all the tokens that it derives.  It has the tree that the
tokens stand for and the notes that reading them leaves.
-/

namespace TriforceScript

namespace Grammar

/-- A token of a given category. -/
@[ext]
structure Terminal (kind : Token.Kind) where
  token : Token
  kind_eq : token.kind = kind

attribute [simp] Terminal.kind_eq

/-! ## Expressions -/

/-- A string or a name in an expression. -/
inductive Operand where
  | string (terminal : Terminal .string)
  | name (terminal : Terminal .identifier)

namespace Operand

def token : Operand → Token
  | .string terminal => terminal.token
  | .name terminal => terminal.token

def node : Operand → Node
  | .string terminal => .string terminal.token.text terminal.token.pos
  | .name terminal => .identifier terminal.token.text terminal.token.pos

def isName : Operand → Bool
  | .string _ => false
  | .name _ => true

end Operand

/-- Items with an operator between each of them and the next. -/
structure Chain (operator : Token.Kind) (Item : Type) where
  first : Item
  /-- The other items, each behind its operator. -/
  rest : List (Terminal operator × Item)

namespace Chain

variable {operator : Token.Kind} {Item : Type}

/-- The tokens of items that stand behind operators. -/
def linkTokens (itemTokens : Item → List Token) (links : List (Terminal operator × Item)) :
    List Token :=
  links.flatMap fun link => link.1.token :: itemTokens link.2

/-- The tree of a left operand and further items, grouped to the left. -/
def linkNode (name : Bytes) (itemNode : Item → Node) (left : Node)
    (links : List (Terminal operator × Item)) : Node :=
  links.foldl (fun left link => .binary name left (itemNode link.2) link.1.token.pos) left

def tokens (itemTokens : Item → List Token) (chain : Chain operator Item) : List Token :=
  itemTokens chain.first ++ linkTokens itemTokens chain.rest

/-- The tree of a chain, grouped to the left. -/
def node (name : Bytes) (itemNode : Item → Node) (chain : Chain operator Item) : Node :=
  linkNode name itemNode (itemNode chain.first) chain.rest

end Chain

/-- Operands that are joined. -/
abbrev Join := Chain .arrow Operand

def Join.tokens (join : Join) : List Token :=
  Chain.tokens (fun operand => [operand.token]) join

def Join.node (join : Join) : Node :=
  Chain.node (utf8 "->") Operand.node join

/-- Joins that are compared. -/
abbrev Expression := Chain .equalsEquals Join

namespace Expression

def tokens (expression : Expression) : List Token :=
  Chain.tokens Join.tokens expression

def node (expression : Expression) : Node :=
  Chain.node (utf8 "==") Join.node expression

/-- The operand that an expression starts with. -/
def leading (expression : Expression) : Operand :=
  expression.first.first

/-- The tokens of an expression behind its first operand. -/
def following (expression : Expression) : List Token :=
  Chain.linkTokens (fun operand => [operand.token]) expression.first.rest ++
    Chain.linkTokens Join.tokens expression.rest

theorem tokens_eq (expression : Expression) :
    expression.tokens = expression.leading.token :: expression.following := by
  simp [tokens, leading, following, Chain.tokens, Join.tokens]

end Expression

/-- The arguments to write: none, or expressions with commas between them. -/
abbrev Arguments := Option (Chain .comma Expression)

namespace Arguments

def tokens : Arguments → List Token
  | none => []
  | some chain => Chain.tokens Expression.tokens chain

def nodes : Arguments → List Node
  | none => []
  | some chain => chain.first.node :: chain.rest.map fun link => link.2.node

end Arguments

/-! ## Statements -/

/-- The name in front of a tail, if there is one. -/
abbrev Lead := Option (Terminal .identifier)

namespace Lead

def tokens : Lead → List Token
  | none => []
  | some name => [name.token]

/-- The notes that the name leaves. -/
def notes : Lead → List Note
  | none => []
  | some name => [.named name.token.text name.token.pos.line, .discarded name.token.text]

end Lead

/-- A statement. -/
inductive Statement where
  | comment (text : Terminal .comment)
  /-- A new value for a variable, behind a double colon. -/
  | reassignment (name : Terminal .identifier) (mark : Terminal .typeMark)
      (value : Expression) (named : value.leading.isName = true)
  | declaration (name : Terminal .identifier) (mark : Terminal .typeMark)
      (left : Terminal .typeOpen) (type : Terminal .identifier) (right : Terminal .typeClose)
      (arrow : Terminal .arrow) (value : Expression)
  /-- A new value for a variable, behind an arrow. -/
  | assignment (name : Terminal .identifier) (arrow : Terminal .arrow) (value : Expression)
  | branch (lead : Lead) (word : Terminal .ifWord) (arrow : Terminal .arrow)
      (condition : Expression) (doubleArrow : Terminal .doubleArrow)
      (left : Terminal .leftBrace) (body : List Statement) (right : Terminal .rightBrace)
  | write (lead : Lead) (word : Terminal .writeWord) (left : Terminal .leftParen)
      (arguments : Arguments) (right : Terminal .rightParen)
  /-- An expression by itself, behind some name if it starts with one. -/
  | expression (lead : Lead) (value : Expression)
      (led : lead = none → value.leading.isName = false)

namespace Statement

mutual

def tokens : Statement → List Token
  | .comment text => [text.token]
  | .reassignment name mark value _ => name.token :: mark.token :: value.tokens
  | .declaration name mark left type right arrow value =>
      name.token :: mark.token :: left.token :: type.token :: right.token :: arrow.token ::
        value.tokens
  | .assignment name arrow value => name.token :: arrow.token :: value.tokens
  | .branch lead word arrow condition doubleArrow left body right =>
      lead.tokens ++ word.token :: arrow.token :: condition.tokens ++
        doubleArrow.token :: left.token :: allTokens body ++ [right.token]
  | .write lead word left arguments right =>
      lead.tokens ++ word.token :: left.token :: arguments.tokens ++ [right.token]
  | .expression lead value _ => lead.tokens ++ value.tokens

def allTokens : List Statement → List Token
  | [] => []
  | statement :: rest => statement.tokens ++ allTokens rest

end

mutual

def node : Statement → Node
  | .comment text => .comment text.token.text text.token.pos
  | .reassignment name _ value _ => .assignment name.token.text value.node name.token.pos
  | .declaration name _ _ type _ _ value =>
      .declaration name.token.text type.token.text value.node name.token.pos
  | .assignment name _ value => .assignment name.token.text value.node name.token.pos
  | .branch _ word _ condition _ left body _ =>
      .branch condition.node (.braced (allNodes body) left.token.pos) .missing word.token.pos
  | .write _ word _ arguments _ => .write arguments.nodes word.token.pos
  | .expression _ value _ => .expression value.node value.node.pos

def allNodes : List Statement → List Node
  | [] => []
  | statement :: rest => statement.node :: allNodes rest

end

mutual

/-- The notes that reading a statement leaves, the first one first. -/
def notes : Statement → List Note
  | .comment _ => []
  | .reassignment name _ _ _ =>
      [.named name.token.text name.token.pos.line, .reassigned name.token.text]
  | .declaration name _ _ _ _ _ _ =>
      [.named name.token.text name.token.pos.line, .declared name.token.text]
  | .assignment name _ _ =>
      [.named name.token.text name.token.pos.line, .assigned name.token.text]
  | .branch lead word _ _ _ _ body _ =>
      lead.notes ++ .branch word.token.pos.line :: allNotes body
  | .write lead word _ _ _ => lead.notes ++ [.write word.token.pos.line]
  | .expression lead _ _ => lead.notes

def allNotes : List Statement → List Note
  | [] => []
  | statement :: rest => statement.notes ++ allNotes rest

end

end Statement

/-! ## Programs -/

/-- A derivation of a whole program. -/
abbrev Derivation := List Statement

namespace Derivation

def tokens (derivation : Derivation) : List Token :=
  Statement.allTokens derivation

/-- The program that the tokens stand for. -/
def program (derivation : Derivation) : Program :=
  Statement.allNodes derivation

end Derivation

end Grammar

end TriforceScript
