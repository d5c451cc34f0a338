import TriforceScript.Tree
import TriforceScript.Tree.Expectation
import TriforceScript.Tree.Note

/-!
# Reading programs

A machine that reads the tokens of a program one after another.  Its state holds
the statements that are complete, the blocks that are open, and how far the
statement under way has come.  A token is either accepted, which gives the next
state, or it ends the reading with a fault that names what was expected instead.
The machine accepts a token only if some program goes on with it.

Statements have no separators.  An expression goes on as long as an operator
follows; any other token ends it and, where the expression ends a statement,
starts the next one.
-/

namespace TriforceScript

/-! ## States -/

namespace Reader

/-- The operator that joins two texts. -/
def joinOperator : Bytes :=
  utf8 "->"

/-- The operator that compares two texts. -/
def compareOperator : Bytes :=
  utf8 "=="

/-- A left operand and the place of the operator behind it. -/
abbrev Waiting := Option (Node × Position)

/-- The expression that a right operand completes, if an operator waits for it. -/
def Waiting.complete (operator : Bytes) (right : Node) : Waiting → Node
  | none => right
  | some (left, pos) => .binary operator left right pos

/-- What an expression is read for. -/
inductive Purpose where
  /-- The value of a new variable. -/
  | declaration (name type : Bytes) (pos : Position)
  /-- The new value of a variable. -/
  | assignment (name : Bytes) (pos : Position)
  /-- A statement of its own. -/
  | statement
  /-- The condition of a branch. -/
  | condition (pos : Position)
  /-- An argument to write, behind others, the latest of them first. -/
  | argument (others : List Node) (pos : Position)

/-- The statement that an expression completes, if it completes one. -/
def Purpose.statement? (value : Node) : Purpose → Option Node
  | .declaration name type pos => some (.declaration name type value pos)
  | .assignment name pos => some (.assignment name value pos)
  | .statement => some (.expression value value.pos)
  | .condition _ => none
  | .argument _ _ => none

/-- How far the statement under way has come. -/
inductive Stage where
  /-- No statement is under way. -/
  | start
  /-- A name. -/
  | name (token : Token)
  /-- A name and a double colon. -/
  | typeMark (token : Token)
  /-- A name, a double colon and an opening bracket. -/
  | typeOpen (token : Token)
  /-- As before, with the name of the type. -/
  | typeName (token : Token) (type : Bytes)
  /-- As before, with the closing bracket. -/
  | typeClose (token : Token) (type : Bytes)
  /-- The word `if`. -/
  | branchWord (pos : Position)
  /-- A condition and the double arrow behind it. -/
  | branchArrow (condition : Node) (pos : Position)
  /-- The word `write`. -/
  | writeWord (pos : Position)
  /-- The word `write` and an opening parenthesis. -/
  | writeOpen (pos : Position)
  /-- An expression up to the place of an operand. -/
  | operand (purpose : Purpose) (compared joined : Waiting)
  /-- An expression with its latest operand. -/
  | operator (purpose : Purpose) (compared : Waiting) (joined : Node)

/-- A branch whose block is open. -/
structure Frame where
  /-- The statements before the branch, the latest first. -/
  before : List Node
  /-- The condition. -/
  condition : Node
  /-- The place of the word `if`. -/
  pos : Position
  /-- The place of the opening brace. -/
  brace : Position

/-- The branch, once the statements of its block are known, the latest first. -/
def Frame.node (frame : Frame) (statements : List Node) : Node :=
  .branch frame.condition (.braced statements.reverse frame.brace) .missing frame.pos

/-- All that has been read. -/
structure State where
  /-- The statement under way. -/
  stage : Stage := .start
  /-- The complete statements of the innermost open block, the latest first. -/
  statements : List Node := []
  /-- The open blocks, the innermost first. -/
  frames : List Frame := []
  /-- The notes taken, the latest first. -/
  notes : List Note := []

namespace State

/-- Goes on to another stage. -/
def goto (state : State) (stage : Stage) : State :=
  { state with stage }

def note (state : State) (note : Note) : State :=
  { state with notes := note :: state.notes }

/-- Completes the statement under way. -/
def push (state : State) (statement : Node) : State :=
  { state with stage := .start, statements := statement :: state.statements }

/-- Opens the block of a branch. -/
def enter (state : State) (condition : Node) (pos brace : Position) : State :=
  { state with
    stage := .start
    statements := []
    frames := ⟨state.statements, condition, pos, brace⟩ :: state.frames }

/-- Closes the innermost open block, if there is one. -/
def leave? (state : State) : Option State :=
  match state.frames with
  | [] => none
  | frame :: frames =>
      some { state with
        stage := .start
        statements := frame.node state.statements :: frame.before
        frames }

/-- Completes the statement under way if it is an expression that may end. -/
def settle (state : State) : State :=
  match state.stage with
  | .operator purpose compared joined =>
      match purpose.statement? (compared.complete compareOperator joined) with
      | some statement => state.push statement
      | none => state
  | _ => state

/-! ## Accepting tokens -/

/-- Reads an operand: a string or a name. -/
def operand? (state : State) (purpose : Purpose) (compared joined : Waiting)
    (token : Token) : Option State :=
  match token.kind with
  | .string =>
      some (state.goto (.operator purpose compared
        (joined.complete joinOperator (.string token.text token.pos))))
  | .identifier =>
      some (state.goto (.operator purpose compared
        (joined.complete joinOperator (.identifier token.text token.pos))))
  | _ => none

/-- Reads the start of a statement that no name introduces. -/
def plain? (state : State) (token : Token) : Option State :=
  match token.kind with
  | .ifWord => some ((state.note (.branch token.pos.line)).goto (.branchWord token.pos))
  | .writeWord => some ((state.note (.write token.pos.line)).goto (.writeWord token.pos))
  | _ => state.operand? .statement none none token

/-- Reads the start of a statement, or the brace that closes a block. -/
def start? (state : State) (token : Token) : Option State :=
  match token.kind with
  | .comment => some (state.push (.comment token.text token.pos))
  | .identifier => some ((state.note (.named token.text token.pos.line)).goto (.name token))
  | .rightBrace => state.leave?
  | _ => state.plain? token

/-- Reads the token behind a name: what makes it a declaration or assignment, or
the start of a statement that does not have it. -/
def named? (state : State) (name token : Token) : Option State :=
  match token.kind with
  | .typeMark => some (state.goto (.typeMark name))
  | .arrow =>
      some ((state.note (.assigned name.text)).goto
        (.operand (.assignment name.text name.pos) none none))
  | _ => (state.note (.discarded name.text)).plain? token

/-- Reads the token behind a name and a double colon. -/
def typed? (state : State) (name token : Token) : Option State :=
  match token.kind with
  | .identifier =>
      (state.note (.reassigned name.text)).operand?
        (.assignment name.text name.pos) none none token
  | .typeOpen => some ((state.note (.declared name.text)).goto (.typeOpen name))
  | _ => none

/-- Reads the token behind an operand. -/
def operator? (state : State) (purpose : Purpose) (compared : Waiting) (joined : Node)
    (token : Token) : Option State :=
  let value := compared.complete compareOperator joined
  match token.kind, purpose with
  | .arrow, _ => some (state.goto (.operand purpose compared (some (joined, token.pos))))
  | .equalsEquals, _ =>
      some (state.goto (.operand purpose (some (value, token.pos)) none))
  | .doubleArrow, .condition pos => some (state.goto (.branchArrow value pos))
  | .comma, .argument others pos =>
      some (state.goto (.operand (.argument (value :: others) pos) none none))
  | .rightParen, .argument others pos =>
      some (state.push (.write (value :: others).reverse pos))
  | _, _ =>
      match purpose.statement? value with
      | some statement => (state.push statement).start? token
      | none => none

/-- The state after a token, if a program can go on with it. -/
def accept? (state : State) (token : Token) : Option State :=
  match state.stage with
  | .start => state.start? token
  | .name name => state.named? name token
  | .typeMark name => state.typed? name token
  | .typeOpen name =>
      if token.kind = .identifier then some (state.goto (.typeName name token.text)) else none
  | .typeName name type =>
      if token.kind = .typeClose then some (state.goto (.typeClose name type)) else none
  | .typeClose name type =>
      if token.kind = .arrow then
        some (state.goto (.operand (.declaration name.text type name.pos) none none))
      else
        none
  | .branchWord pos =>
      if token.kind = .arrow then
        some (state.goto (.operand (.condition pos) none none))
      else
        none
  | .branchArrow condition pos =>
      if token.kind = .leftBrace then some (state.enter condition pos token.pos) else none
  | .writeWord pos =>
      if token.kind = .leftParen then some (state.goto (.writeOpen pos)) else none
  | .writeOpen pos =>
      if token.kind = .rightParen then
        some (state.push (.write [] pos))
      else
        state.operand? (.argument [] pos) none none token
  | .operand purpose compared joined => state.operand? purpose compared joined token
  | .operator purpose compared joined => state.operator? purpose compared joined token

/-- The program that has been read, if the tokens may end here. -/
def program? (state : State) : Option Program :=
  match state.settle.stage, state.frames with
  | .start, [] => some state.settle.statements.reverse
  | _, _ => none

/-- What is expected when a token is not accepted. -/
def expected (state : State) (token : Token) : Expectation :=
  match state.settle.stage with
  | .start => if token.kind = .eof then .rightBrace else .expression
  | .name _ => .expression
  | .typeMark _ => .typeOpen
  | .typeOpen _ => .typeName
  | .typeName _ _ => .typeClose
  | .typeClose _ _ => .typeArrow
  | .branchWord _ => .branchArrow
  | .branchArrow _ _ => .leftBrace
  | .writeWord _ => .leftParen
  | .writeOpen _ => .expression
  | .operand _ _ _ => .expression
  | .operator (.condition _) _ _ => .branchDoubleArrow
  | .operator _ _ _ => .rightParen

/-- The notes taken up to a token that is not accepted, the latest first: a name
that led to nothing has been decided about by then. -/
def lastNotes (state : State) : List Note :=
  match state.stage with
  | .name name => .discarded name.text :: state.notes
  | .typeMark name => .declared name.text :: state.notes
  | _ => state.notes

end State

end Reader

/-! ## Whole programs -/

/-- What comes of reading tokens: a program or a fault. -/
abbrev Reading := Noted (Except ParseFault Program)

namespace Reader

/-- The reading that ends with a token that is not accepted. -/
def State.reject (state : State) (token : Token) : Reading :=
  ⟨state.lastNotes.reverse, .error ⟨state.expected token, token⟩⟩

/-- The reading that ends with the end of the tokens. -/
def State.finish (state : State) (endToken : Token) : Reading :=
  match state.program? with
  | some program => ⟨state.notes.reverse, .ok program⟩
  | none => state.reject endToken

/-- Reads tokens up to the token `endToken` for their end. -/
def State.read (endToken : Token) : State → List Token → Reading
  | state, [] => state.finish endToken
  | state, token :: rest =>
      match state.accept? token with
      | some next => next.read endToken rest
      | none => state.reject token

end Reader

/-- The place of the last of some tokens. -/
def Token.lastPos (tokens : List Token) : Position :=
  (tokens.getLast?.map Token.pos).getD .origin

/-- Reads a program from the tokens before the first one for the end.  If there is
no such token, one is supplied at the place of the last token. -/
def readTokens (tokens : List Token) : Reading :=
  let endToken := (tokens.find? (·.kind == .eof)).getD ⟨.eof, [], Token.lastPos tokens⟩
  Reader.State.read endToken {} (tokens.takeWhile (·.kind != .eof))

end TriforceScript
