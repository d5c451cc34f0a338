import TriforceScript.Proofs.Reader.Run

/-!
# Reading by descent

A second way to read a program: parts that call one another as the grammar does and share a
cursor into the list of all tokens.  Looking at an index where there is no token halts the
descent, and so does a loop that goes on for too long.

Here are the parts and what the smallest of them do.  A cursor stands in front of the tokens up
to the next token for the end; that one is looked at, but never passed.
-/

namespace TriforceScript

namespace Descent

/-- Why a descent halts. -/
inductive Halt where
  /-- A token that cannot be accepted. -/
  | fault (fault : ParseFault)
  /-- A look at an index where there is no token. -/
  | outside
  /-- A loop that goes on for too long. -/
  | exhausted

/-- How far a descent has come. -/
structure Cursor where
  /-- The index of the next token. -/
  current : Nat := 0
  /-- The notes taken, the latest first. -/
  notes : List Note := []

/-- A part of a descent, which moves the cursor and comes to a value or halts. -/
abbrev Part := EStateM Halt Cursor

def note (note : Note) : Part Unit :=
  modify fun cursor => { cursor with notes := note :: cursor.notes }

section Parts

variable (tokens : List Token)

/-! ## Single tokens -/

def look (index : Nat) : Part Token :=
  match tokens[index]? with
  | some token => pure token
  | none => throw .outside

/-- The next token. -/
def peek : Part Token := do
  look tokens (← get).current

/-- The token in front of the next one. -/
def previous : Part Token := do
  match (← get).current with
  | 0 => throw .outside
  | index + 1 => look tokens index

def atEnd : Part Bool := do
  return (← peek tokens).kind == .eof

/-- Passes the next token, unless it is for the end. -/
def advance : Part Token := do
  if ← atEnd tokens then
    previous tokens
  else
    modify fun cursor => { cursor with current := cursor.current + 1 }
    previous tokens

/-- Whether the next token is of a category.  One for the end is of none. -/
def check (kind : Token.Kind) : Part Bool := do
  if ← atEnd tokens then
    return false
  else
    return (← peek tokens).kind == kind

/-- Passes the next token if it is of a category. -/
def accept (kind : Token.Kind) : Part Bool := do
  if ← check tokens kind then
    let _ ← advance tokens
    return true
  else
    return false

/-- Passes the next token, which has to be of a category. -/
def consume (kind : Token.Kind) (expected : Expectation) : Part Token := do
  if ← check tokens kind then
    advance tokens
  else
    throw (.fault ⟨expected, ← peek tokens⟩)

/-! ## Expressions -/

def primary : Part Node := do
  if ← accept tokens .string then
    let token ← previous tokens
    return .string token.text token.pos
  else if ← accept tokens .identifier then
    let token ← previous tokens
    return .identifier token.text token.pos
  else
    throw (.fault ⟨.expression, ← peek tokens⟩)

/-- Further items behind operators of a category, grouped to the left. -/
def further (kind : Token.Kind) (operator : Bytes) (item : Part Node) : Nat → Node → Part Node
  | 0, _ => throw .exhausted
  | fuel + 1, left => do
      if ← accept tokens kind then
        let token ← previous tokens
        let right ← item
        further kind operator item fuel (.binary operator left right token.pos)
      else
        return left

def concatenation : Part Node := do
  let left ← primary tokens
  further tokens .arrow Reader.joinOperator (primary tokens) tokens.length left

def equality : Part Node := do
  let left ← concatenation tokens
  further tokens .equalsEquals Reader.compareOperator (concatenation tokens) tokens.length left

/-! ## Statements -/

def assignment (name : Token) : Part Node := do
  let value ← equality tokens
  return .assignment name.text value name.pos

def typeDeclaration (name : Token) : Part Node := do
  let _ ← consume tokens .typeOpen .typeOpen
  let type ← consume tokens .identifier .typeName
  let _ ← consume tokens .typeClose .typeClose
  let _ ← consume tokens .arrow .typeArrow
  let value ← equality tokens
  return .declaration name.text type.text value name.pos

def argumentList : Nat → Part (List Node)
  | 0 => throw .exhausted
  | fuel + 1 => do
      let argument ← equality tokens
      if ← accept tokens .comma then
        return argument :: (← argumentList fuel)
      else
        return [argument]

def writtenValues : Part (List Node) := do
  if ← check tokens .rightParen then
    return []
  else
    argumentList tokens tokens.length

def writeStatement : Part Node := do
  let word ← previous tokens
  let _ ← consume tokens .leftParen .leftParen
  let arguments ← writtenValues tokens
  let _ ← consume tokens .rightParen .rightParen
  return .write arguments word.pos

/-- A block, whose statements are read by the part `inner`. -/
def block (inner : Part (List Node)) : Part Block := do
  let brace ← consume tokens .leftBrace .leftBrace
  let statements ← inner
  let _ ← consume tokens .rightBrace .rightBrace
  return .braced statements brace.pos

def ifStatement (inner : Part (List Node)) : Part Node := do
  let word ← previous tokens
  let _ ← consume tokens .arrow .branchArrow
  let condition ← equality tokens
  let _ ← consume tokens .doubleArrow .branchDoubleArrow
  let body ← block tokens inner
  return .branch condition body .missing word.pos

def expressionStatement : Part Node := do
  let value ← equality tokens
  return .expression value value.pos

/-- A statement that no name introduces. -/
def plainStatement (inner : Part (List Node)) : Part Node := do
  if ← accept tokens .ifWord then
    note (.branch (← previous tokens).pos.line)
    ifStatement tokens inner
  else if ← accept tokens .writeWord then
    note (.write (← previous tokens).pos.line)
    writeStatement tokens
  else
    expressionStatement tokens

/-- The rest of a statement behind a name. -/
def namedStatement (inner : Part (List Node)) (name : Token) : Part Node := do
  if ← accept tokens .typeMark then
    if ← check tokens .identifier then
      note (.reassigned name.text)
      assignment tokens name
    else
      note (.declared name.text)
      typeDeclaration tokens name
  else if ← accept tokens .arrow then
    note (.assigned name.text)
    assignment tokens name
  else
    note (.discarded name.text)
    plainStatement tokens inner

def declaration (inner : Part (List Node)) : Part Node := do
  if ← accept tokens .comment then
    let token ← previous tokens
    return .comment token.text token.pos
  else if ← check tokens .identifier then
    let name ← advance tokens
    note (.named name.text name.pos.line)
    namedStatement tokens inner name
  else
    plainStatement tokens inner

/-- The statements of a block, up to its closing brace or the end. -/
def blockStatements : Nat → Part (List Node)
  | 0 => throw .exhausted
  | fuel + 1 => do
      if ← check tokens .rightBrace then
        return []
      else if ← atEnd tokens then
        return []
      else
        let statement ← declaration tokens (blockStatements fuel)
        return statement :: (← blockStatements fuel)

/-- The statements of a program, up to the end. -/
def statements : Nat → Part (List Node)
  | 0 => throw .exhausted
  | fuel + 1 => do
      if ← atEnd tokens then
        return []
      else
        let statement ← declaration tokens (blockStatements tokens fuel)
        return statement :: (← statements fuel)

end Parts

/-! ## Whole programs -/

/-- Tokens with one for the end behind them, if the last of them is no such token. -/
def closed (tokens : List Token) : List Token :=
  if tokens.getLast?.map Token.kind = some .eof then
    tokens
  else
    tokens ++ [⟨.eof, [], Token.lastPos tokens⟩]

/-- What comes of a descent, unless it looks outside of the tokens or goes on for too long. -/
def reading? : EStateM.Result Halt Cursor Program → Option Reading
  | .ok program cursor => some ⟨cursor.notes.reverse, .ok program⟩
  | .error (.fault fault) cursor => some ⟨cursor.notes.reverse, .error fault⟩
  | .error _ _ => none

/-- Reads a program by descent. -/
def descend (tokens : List Token) : Option Reading :=
  reading? (statements (closed tokens) (closed tokens).length {})

/-! ## Looking at tokens -/

theorem bind_of_ok {α β : Type} {part : Part α} {next : α → Part β} {cursor reached : Cursor}
    {value : α} (ends : part cursor = .ok value reached) :
    (part >>= next) cursor = next value reached := by
  show EStateM.bind part next cursor = _
  rw [EStateM.bind, ends]

section Branches

variable {α : Type} {test : Part Bool} {first second : Part α} {cursor reached : Cursor}

theorem branch_of_true (holds : test cursor = .ok true reached) :
    (test >>= fun found => if found then first else second) cursor = first reached :=
  bind_of_ok holds

theorem branch_of_false (fails : test cursor = .ok false reached) :
    (test >>= fun found => if found then first else second) cursor = second reached :=
  bind_of_ok fails

end Branches

/-- The cursor behind the next token. -/
def Cursor.next (cursor : Cursor) : Cursor :=
  { cursor with current := cursor.current + 1 }

def Cursor.noting (cursor : Cursor) (note : Note) : Cursor :=
  { cursor with notes := note :: cursor.notes }

theorem note_apply (some : Note) (cursor : Cursor) :
    note some cursor = .ok () (cursor.noting some) := rfl

/-- A cursor stands in front of the tokens `rest`, and behind them is the next one for the
end. -/
structure Stands (tokens : List Token) (endToken : Token) (cursor : Cursor) (rest : List Token) :
    Prop where
  ahead : ∃ behind, tokens.drop cursor.current = rest ++ endToken :: behind
  proper : ∀ token ∈ rest, token.kind ≠ .eof
  isEnd : endToken.kind = .eof

section Looking

variable {tokens : List Token} {endToken token : Token} {cursor : Cursor} {rest : List Token}
  {kind : Token.Kind}

theorem Stands.noting (stands : Stands tokens endToken cursor rest) (some : Note) :
    Stands tokens endToken (cursor.noting some) rest :=
  ⟨stands.ahead, stands.proper, stands.isEnd⟩

theorem Stands.next (stands : Stands tokens endToken cursor (token :: rest)) :
    Stands tokens endToken cursor.next rest := by
  obtain ⟨behind, ahead⟩ := stands.ahead
  refine ⟨⟨behind, ?_⟩, fun other member => stands.proper other (List.mem_cons_of_mem _ member),
    stands.isEnd⟩
  rw [Cursor.next, ← List.tail_drop, ahead]
  rfl

/-- The token that a cursor in front of `rest` looks at. -/
private theorem Stands.getElem? (stands : Stands tokens endToken cursor rest) :
    tokens[cursor.current]? = some (rest.headD endToken) := by
  obtain ⟨behind, ahead⟩ := stands.ahead
  rw [← List.head?_drop, ahead]
  cases rest <;> rfl

theorem Stands.length_lt (stands : Stands tokens endToken cursor rest) :
    rest.length < tokens.length := by
  obtain ⟨behind, ahead⟩ := stands.ahead
  have lengths := congrArg List.length ahead
  rw [List.length_drop, List.length_append, List.length_cons] at lengths
  omega

theorem look_of_getElem? {index : Nat} (found : tokens[index]? = some token) :
    look tokens index cursor = .ok token cursor := by
  rw [look, found]
  rfl

theorem peek_of_stands (stands : Stands tokens endToken cursor rest) :
    peek tokens cursor = .ok (rest.headD endToken) cursor :=
  look_of_getElem? stands.getElem?

/-- The token in front of the next one is the one just passed. -/
def Passed (tokens : List Token) (cursor : Cursor) (token : Token) : Prop :=
  ∃ index, cursor.current = index + 1 ∧ tokens[index]? = some token

theorem Stands.passed (stands : Stands tokens endToken cursor (token :: rest)) :
    Passed tokens cursor.next token :=
  ⟨cursor.current, rfl, stands.getElem?⟩

theorem previous_of_passed (passed : Passed tokens cursor token) :
    previous tokens cursor = .ok token cursor := by
  obtain ⟨current, notes⟩ := cursor
  obtain ⟨index, rfl, found⟩ := passed
  exact look_of_getElem? found

private theorem atEnd_of_stands (stands : Stands tokens endToken cursor rest) :
    atEnd tokens cursor = .ok ((rest.headD endToken).kind == .eof) cursor :=
  bind_of_ok (peek_of_stands stands)

theorem atEnd_nil (stands : Stands tokens endToken cursor []) :
    atEnd tokens cursor = .ok true cursor := by
  have isEnd : (endToken.kind == .eof) = true := by
    rw [stands.isEnd]
    rfl
  rw [atEnd_of_stands stands, List.headD_nil, isEnd]

theorem atEnd_cons (stands : Stands tokens endToken cursor (token :: rest)) :
    atEnd tokens cursor = .ok false cursor := by
  have noEnd : (token.kind == .eof) = false :=
    beq_eq_false_iff_ne.mpr (stands.proper token List.mem_cons_self)
  rw [atEnd_of_stands stands, List.headD_cons, noEnd]

theorem advance_cons (stands : Stands tokens endToken cursor (token :: rest)) :
    advance tokens cursor = .ok token cursor.next := by
  rw [advance, branch_of_false (atEnd_cons stands)]
  exact previous_of_passed stands.passed

theorem check_of_mem (stands : Stands tokens endToken cursor (token :: rest))
    (isKind : token.kind = kind) : check tokens kind cursor = .ok true cursor := by
  rw [check, branch_of_false (atEnd_cons stands),
    bind_of_ok (peek_of_stands stands), List.headD_cons, isKind, beq_self_eq_true]
  rfl

theorem check_of_ne (stands : Stands tokens endToken cursor rest)
    (noKind : ∀ token ∈ rest.head?, token.kind ≠ kind) :
    check tokens kind cursor = .ok false cursor := by
  rw [check]
  cases rest with
  | nil =>
      rw [branch_of_true (atEnd_nil stands)]
      rfl
  | cons token rest =>
      have notKind : (token.kind == kind) = false := beq_eq_false_iff_ne.mpr (noKind token rfl)
      rw [branch_of_false (atEnd_cons stands),
        bind_of_ok (peek_of_stands stands), List.headD_cons, notKind]
      rfl

theorem accept_of_mem (stands : Stands tokens endToken cursor (token :: rest))
    (isKind : token.kind = kind) : accept tokens kind cursor = .ok true cursor.next := by
  rw [accept, branch_of_true (check_of_mem stands isKind), bind_of_ok (advance_cons stands)]
  rfl

theorem accept_of_ne (stands : Stands tokens endToken cursor rest)
    (noKind : ∀ token ∈ rest.head?, token.kind ≠ kind) :
    accept tokens kind cursor = .ok false cursor := by
  rw [accept, branch_of_false (check_of_ne stands noKind)]
  rfl

theorem consume_of_mem (stands : Stands tokens endToken cursor (token :: rest))
    (isKind : token.kind = kind) (expected : Expectation) :
    consume tokens kind expected cursor = .ok token cursor.next := by
  rw [consume, branch_of_true (check_of_mem stands isKind)]
  exact advance_cons stands

theorem consume_of_ne (stands : Stands tokens endToken cursor rest)
    (noKind : ∀ token ∈ rest.head?, token.kind ≠ kind) (expected : Expectation) :
    consume tokens kind expected cursor =
      .error (.fault ⟨expected, rest.headD endToken⟩) cursor := by
  rw [consume, branch_of_false (check_of_ne stands noKind), bind_of_ok (peek_of_stands stands)]
  rfl

end Looking

end Descent

end TriforceScript
