import TriforceScript.Proofs.Descent.Expressions
import TriforceScript.Proofs.Grammar.Completeness

/-!
# Statements by descent

Each part that reads a statement agrees with the reader, and so do the loops over the statements
of a block and of a program.  The reader decides some things a token later than the descent; the
readings from such states come first.
-/

namespace TriforceScript

namespace Reader.State

/-! ## Readings from related states -/

private theorem reject_settle (state : State) (token : Token) :
    state.settle.reject token = state.reject token := by
  have sameNotes : state.settle.lastNotes = state.lastNotes := by
    rcases state.settle_cases with same | ⟨purpose, compared, joined, statement, stage, -, pushed⟩
    · rw [same]
    · rw [pushed, lastNotes, lastNotes, stage]
      rfl
  rw [reject, reject, sameNotes, expected, settle_settle]
  rfl

/-- What is still to be settled does not matter to a reading that goes on with no operator. -/
private theorem read_settle (state : State) (endToken : Token) {tokens : List Token}
    (stops : Token.Stops tokens) :
    state.settle.read endToken tokens = state.read endToken tokens := by
  cases tokens with
  | nil =>
      rw [read, read, finish, finish, program?_settle, notes_settle, reject_settle]
  | cons token rest =>
      obtain ⟨noArrow, noEquals⟩ := stops token rfl
      rw [read, read, state.accept?_settle noArrow noEquals, reject_settle]

/-- The reading of a statement that no name introduces, and of what follows it. -/
def readPlain (endToken : Token) (state : State) : List Token → Reading
  | [] => ⟨state.notes.reverse, .error ⟨.expression, endToken⟩⟩
  | token :: rest =>
      match state.plain? token with
      | some next => next.read endToken rest
      | none => ⟨state.notes.reverse, .error ⟨.expression, token⟩⟩

private theorem readPlain_goto (endToken : Token) (state : State) (stage : Stage)
    (tokens : List Token) :
    (state.goto stage).readPlain endToken tokens = state.readPlain endToken tokens := by
  cases tokens with
  | nil =>
      rfl
  | cons token rest =>
      rw [readPlain, readPlain, Grammar.plain?_goto]
      rfl

/-- A statement that starts with no word is read as an expression. -/
private theorem readPlain_operand (endToken : Token) (state : State) {tokens : List Token}
    (noIf : ∀ token ∈ tokens.head?, token.kind ≠ .ifWord)
    (noWrite : ∀ token ∈ tokens.head?, token.kind ≠ .writeWord) :
    state.readPlain endToken tokens =
      (state.goto (.operand .statement none none)).read endToken tokens := by
  cases tokens with
  | nil =>
      rfl
  | cons token rest =>
      have plain :
          state.plain? token = (state.goto (.operand .statement none none)).accept? token := by
        rw [← Grammar.plain?_goto state (.operand .statement none none), plain?]
        split
        · exact absurd ‹_› (noIf token rfl)
        · exact absurd ‹_› (noWrite token rfl)
        · rfl
      rw [readPlain, read, plain]
      rfl

/-- A statement starts without a name unless it is a comment, or the brace of an open block. -/
private theorem read_start {state : State} (start : state.stage = .start) (endToken : Token)
    {token : Token} {rest : List Token} (proper : token.kind ≠ .eof)
    (noComment : token.kind ≠ .comment) (noName : token.kind ≠ .identifier)
    (noBlock : token.kind = .rightBrace → state.frames = []) :
    state.read endToken (token :: rest) = state.readPlain endToken (token :: rest) := by
  have rejected : state.reject token = ⟨state.notes.reverse, .error ⟨.expression, token⟩⟩ := by
    rw [reject, lastNotes, expected, settle_of_start start, start]
    simp [proper]
  have plain : state.accept? token = state.plain? token := by
    rw [accept?_start start]
    by_cases isBrace : token.kind = .rightBrace
    · simp [start?, isBrace, leave?, noBlock isBrace, plain?, operand?]
    · rw [start?]
      split
      · exact absurd ‹_› noComment
      · exact absurd ‹_› noName
      · exact absurd ‹_› isBrace
      · rfl
  rw [read, plain, rejected]
  rfl

/-- Behind a name that is neither declared nor assigned, a statement starts without one. -/
private theorem read_name (state : State) (endToken name : Token) {tokens : List Token}
    (noMark : ∀ token ∈ tokens.head?, token.kind ≠ .typeMark)
    (noArrow : ∀ token ∈ tokens.head?, token.kind ≠ .arrow) :
    (state.goto (.name name)).read endToken tokens =
      (state.note (.discarded name.text)).readPlain endToken tokens := by
  rw [← readPlain_goto endToken (state.note (.discarded name.text)) (.name name)]
  cases tokens with
  | nil =>
      rfl
  | cons token rest =>
      have plain :
          (state.goto (.name name)).accept? token =
            ((state.note (.discarded name.text)).goto (.name name)).plain? token := by
        rw [accept?_name, named?]
        split
        · exact absurd ‹_› (noMark token rfl)
        · exact absurd ‹_› (noArrow token rfl)
        · rfl
      rw [read, readPlain, plain]
      rfl

/-- Where arguments do not end at once, the first of them is due. -/
private theorem read_writeOpen (state : State) (endToken : Token) (pos : Position)
    {tokens : List Token} (noParen : ∀ token ∈ tokens.head?, token.kind ≠ .rightParen) :
    (state.goto (.writeOpen pos)).read endToken tokens =
      (state.goto (.operand (.argument [] pos) none none)).read endToken tokens := by
  cases tokens with
  | nil =>
      rfl
  | cons token rest =>
      have operand :
          (state.goto (.writeOpen pos)).accept? token =
            (state.goto (.operand (.argument [] pos) none none)).accept? token := by
        rw [accept?, stage_goto]
        simp only [noParen token rfl, if_false]
        rfl
      rw [read, read, operand]
      rfl

/-- A name behind a double colon starts the new value. -/
private theorem read_reassigned (state : State) (endToken name : Token) {token : Token}
    (isName : token.kind = .identifier) (rest : List Token) :
    (state.goto (.typeMark name)).read endToken (token :: rest) =
      ((state.note (.reassigned name.text)).goto
        (.operand (.assignment name.text name.pos) none none)).read endToken (token :: rest) := by
  have operand :
      (state.goto (.typeMark name)).accept? token =
        ((state.note (.reassigned name.text)).goto
          (.operand (.assignment name.text name.pos) none none)).accept? token := by
    rw [accept?_typeMark, typed?, isName]
    rfl
  have accepted :
      (((state.note (.reassigned name.text)).goto
        (.operand (.assignment name.text name.pos) none none)).accept? token).isSome := by
    rw [accept?, stage_goto]
    simp [operand?, isName]
  obtain ⟨next, isNext⟩ := Option.isSome_iff_exists.mp accepted
  rw [read, read, operand, isNext]

/-- Behind an argument come a further one or the parenthesis. -/
private theorem accept?_argument (state : State) {others : List Node} {pos : Position}
    {compared : Waiting} {joined : Node} {token : Token} (noArrow : token.kind ≠ .arrow)
    (noEquals : token.kind ≠ .equalsEquals) (noComma : token.kind ≠ .comma) :
    (state.goto (.operator (.argument others pos) compared joined)).accept? token =
      if token.kind = .rightParen then
        some (state.push (.write (compared.complete compareOperator joined :: others).reverse pos))
      else
        none := by
  rw [accept?_operator]
  by_cases isParen : token.kind = .rightParen
  · simp only [operator?, isParen, if_true]
    rfl
  · rw [if_neg isParen]
    unfold operator?
    split <;> first | contradiction | rfl

/-- Behind a condition comes the double arrow. -/
private theorem accept?_condition (state : State) {pos : Position} {compared : Waiting}
    {joined : Node}
    {token : Token} (noArrow : token.kind ≠ .arrow) (noEquals : token.kind ≠ .equalsEquals) :
    (state.goto (.operator (.condition pos) compared joined)).accept? token =
      if token.kind = .doubleArrow then
        some (state.goto (.branchArrow (compared.complete compareOperator joined) pos))
      else
        none := by
  rw [accept?_operator]
  by_cases isDouble : token.kind = .doubleArrow
  · simp only [operator?, isDouble, if_true]
    rfl
  · simp [operator?, isDouble, Purpose.statement?]

end Reader.State

namespace Descent

open Reader (State Stage Frame Purpose Waiting compareOperator)

section Parts

variable {tokens : List Token} {endToken : Token} {reading : Reading} {state : State}
  {cursor : Cursor} {rest : List Token}

/-! ## Statements that are not nested -/

/-- A statement is complete: the reader has it on top of the others, in the same block, and fewer
than `bound` tokens are left. -/
def Completes (tokens : List Token) (endToken : Token) (reading : Reading) (state : State)
    (bound : Nat) (statement : Node) (cursor : Cursor) : Prop :=
  ∃ next others,
    next.stage = .start ∧ next.frames = state.frames ∧
    next.statements = statement :: state.statements ∧ others.length < bound ∧
    Matches tokens endToken reading next cursor others

private theorem Completes.mono {statement : Node} {bound larger : Nat}
    (completes : Completes tokens endToken reading state bound statement cursor)
    (noLess : bound ≤ larger) :
    Completes tokens endToken reading state larger statement cursor := by
  obtain ⟨next, others, start, frames, statements, shorter, meets⟩ := completes
  exact ⟨next, others, start, frames, statements, Nat.lt_of_lt_of_le shorter noLess, meets⟩

private theorem Agrees.within {bound larger : Nat} {result : EStateM.Result Halt Cursor Node}
    (agrees : Agrees reading (Completes tokens endToken reading state bound) result)
    (noLess : bound ≤ larger) :
    Agrees reading (Completes tokens endToken reading state larger) result :=
  agrees.mono fun _ _ completes => completes.mono noLess

/-- An expression that ends a statement completes it. -/
private theorem agrees_value {purpose : Purpose} {statement : Node → Node}
    (ends : ∀ value, purpose.statement? value = some (statement value))
    (meets : Matches tokens endToken reading
      (state.goto (.operand purpose none none)) cursor rest) :
    Agrees reading
      (fun value => Completes tokens endToken reading state rest.length (statement value))
      (equality tokens cursor) := by
  apply (agrees_equality meets).mono
  rintro value reached ⟨others, compared, joined, shorter, stops, rfl, meetsValue⟩
  refine ⟨state.push _, others, rfl, rfl, rfl, shorter, meetsValue.stands, meetsValue.notes, ?_⟩
  rw [meetsValue.isReading, ← Reader.State.read_settle _ _ stops,
    State.settle_operator rfl (ends _)]
  rfl

private theorem agrees_assignment {name : Token}
    (meets : Matches tokens endToken reading
      (state.goto (.operand (.assignment name.text name.pos) none none)) cursor rest) :
    Agrees reading (Completes tokens endToken reading state rest.length)
      (assignment tokens name cursor) :=
  Agrees.bind (agrees_value (fun _ => rfl) meets) fun _ _ completes => completes

private theorem agrees_expressionStatement
    (meets : Matches tokens endToken reading
      (state.goto (.operand .statement none none)) cursor rest) :
    Agrees reading (Completes tokens endToken reading state rest.length)
      (expressionStatement tokens cursor) :=
  Agrees.bind (agrees_value (fun _ => rfl) meets) fun _ _ completes => completes

/-- The reader takes the note of a declaration with the bracket, or with the fault in its
place; the descent has it before. -/
private theorem agrees_typeOpen {name : Token} (stands : Stands tokens endToken cursor rest)
    (notes : cursor.notes = .declared name.text :: state.notes)
    (isReading : reading = (state.goto (.typeMark name)).read endToken rest)
    (noName : ∀ token ∈ rest.head?, token.kind ≠ .identifier) :
    Agrees reading
      (fun token reached => ∃ behind,
        rest = token :: behind ∧
        Matches tokens endToken reading
          ((state.note (.declared name.text)).goto (.typeOpen name)) reached behind)
      (consume tokens .typeOpen .typeOpen cursor) := by
  rcases head?_cases rest .typeOpen with ⟨token, behind, rfl, isOpen⟩ | noOpen
  · have accepted :
        (state.goto (.typeMark name)).accept? token =
          some ((state.note (.declared name.text)).goto (.typeOpen name)) := by
      rw [State.accept?_typeMark, State.typed?, isOpen]
      rfl
    rw [consume_of_mem stands isOpen]
    refine ⟨behind, rfl, stands.next, notes, ?_⟩
    rw [isReading, State.read, accepted]
  · have rejected : reading = (state.goto (.typeMark name)).reject (rest.headD endToken) := by
      rw [isReading]
      cases rest with
      | nil =>
          rfl
      | cons token behind =>
          have blocked : (state.goto (.typeMark name)).accept? token = none := by
            rw [State.accept?_typeMark, State.typed?]
            split
            · exact absurd ‹_› (noName token rfl)
            · exact absurd ‹_› (noOpen token rfl)
            · rfl
          rw [State.read, blocked]
          rfl
    rw [consume_of_ne stands noOpen]
    rw [Agrees, rejected, notes]
    rfl

private theorem agrees_typeDeclaration {name : Token} (stands : Stands tokens endToken cursor rest)
    (notes : cursor.notes = .declared name.text :: state.notes)
    (isReading : reading = (state.goto (.typeMark name)).read endToken rest)
    (noName : ∀ token ∈ rest.head?, token.kind ≠ .identifier) :
    Agrees reading (Completes tokens endToken reading state rest.length)
      (typeDeclaration tokens name cursor) := by
  let begun := state.note (.declared name.text)
  rw [typeDeclaration]
  apply Agrees.bind (agrees_typeOpen stands notes isReading noName)
  rintro bracket opened ⟨rest, rfl, meetsOpen⟩
  apply Agrees.bind (meetsOpen.consume (fun type => begun.goto (.typeName name type.text))
    rfl (fun _ _ => rfl) (fun _ => rfl) rfl (fun _ => rfl))
  rintro type typed ⟨rest, rfl, meetsType⟩
  apply Agrees.bind (meetsType.consume (fun _ => begun.goto (.typeClose name type.text))
    rfl (fun _ _ => rfl) (fun _ => rfl) rfl (fun _ => rfl))
  rintro bracket closed ⟨rest, rfl, meetsClose⟩
  apply Agrees.bind (meetsClose.consume
    (fun _ => begun.goto (.operand (.declaration name.text type.text name.pos) none none))
    rfl (fun _ _ => rfl) (fun _ => rfl) rfl (fun _ => rfl))
  rintro arrow begins ⟨rest, rfl, meetsArrow⟩
  apply Agrees.bind (agrees_value (fun _ => rfl) meetsArrow)
  intro value reached completes
  refine Completes.mono completes ?_
  simp only [List.length_cons]
  omega

private theorem agrees_argumentList {others : List Node} {pos : Position} {fuel : Nat}
    (meets : Matches tokens endToken reading
      (state.goto (.operand (.argument others pos) none none)) cursor rest)
    (enough : rest.length < fuel) :
    Agrees reading
      (fun arguments reached => ∃ behind earlier compared joined,
        behind.length < rest.length ∧ Token.Stops behind ∧
        (∀ token ∈ behind.head?, token.kind ≠ .comma) ∧
        (Waiting.complete compareOperator joined compared :: earlier).reverse =
          others.reverse ++ arguments ∧
        Matches tokens endToken reading
          (state.goto (.operator (.argument earlier pos) compared joined)) reached behind)
      (argumentList tokens fuel cursor) := by
  induction fuel generalizing others cursor rest with
  | zero =>
      exact absurd enough (Nat.not_lt_zero _)
  | succ fuel inductionHypothesis =>
      rw [argumentList]
      apply Agrees.bind (agrees_equality meets)
      rintro argument reached ⟨behind, compared, joined, shorter, stops, rfl, meetsArgument⟩
      rcases head?_cases behind .comma with ⟨comma, rest, rfl, isComma⟩ | noComma
      · let value := Waiting.complete compareOperator joined compared
        have accepted :
            (state.goto (.operator (.argument others pos) compared joined)).accept? comma =
              some (state.goto (.operand (.argument (value :: others) pos) none none)) := by
          simp [State.accept?, State.operator?, isComma, value]
        rw [branch_of_true (accept_of_mem meetsArgument.stands isComma)]
        rw [List.length_cons] at shorter
        apply Agrees.bind (inductionHypothesis (meetsArgument.step accepted rfl) (by omega))
        rintro arguments final ⟨last, earlier, compared, joined, shorterLast, stops, noComma, whole,
          meetsLast⟩
        refine ⟨last, earlier, compared, joined, by omega, stops, noComma, ?_, meetsLast⟩
        rw [whole, List.reverse_cons, List.append_assoc, List.singleton_append]
      · rw [branch_of_false (accept_of_ne meetsArgument.stands noComma)]
        exact ⟨behind, others, compared, joined, shorter, stops, noComma, List.reverse_cons,
          meetsArgument⟩

/-- The arguments to write are read up to where only the parenthesis behind them can follow. -/
private theorem agrees_writtenValues {pos : Position}
    (meets : Matches tokens endToken reading (state.goto (.writeOpen pos)) cursor rest) :
    Agrees reading
      (fun arguments reached => ∃ behind next,
        behind.length ≤ rest.length ∧
        Matches tokens endToken reading next reached behind ∧
        next.program? = none ∧
        (∀ token ∈ behind.head?, next.accept? token =
          if token.kind = .rightParen then some (state.push (.write arguments pos)) else none) ∧
        ((∀ token ∈ behind.head?, token.kind ≠ .rightParen) →
          next.expected (behind.headD endToken) = .rightParen) ∧
        next.lastNotes = next.notes ∧ next.notes = state.notes)
      (writtenValues tokens cursor) := by
  rw [writtenValues]
  rcases head?_cases rest .rightParen with ⟨paren, behind, rfl, isParen⟩ | noParen
  · rw [branch_of_true (check_of_mem meets.stands isParen)]
    refine ⟨paren :: behind, _, Nat.le_refl _, meets, rfl, ?_, ?_, rfl, rfl⟩
    · rintro token ⟨⟩
      rw [State.accept?, State.stage_goto]
      simp [isParen, State.push, State.goto]
    · intro noParen
      exact absurd isParen (noParen paren rfl)
  · rw [branch_of_false (check_of_ne meets.stands noParen)]
    have meetsOperand :
        Matches tokens endToken reading
          (state.goto (.operand (.argument [] pos) none none)) cursor rest := by
      refine ⟨meets.stands, meets.notes, ?_⟩
      rw [meets.isReading, Reader.State.read_writeOpen state endToken pos noParen]
    apply (agrees_argumentList meetsOperand meets.stands.length_lt).mono
    rintro arguments reached ⟨behind, earlier, compared, joined, shorter, stops, noComma, whole,
      meetsLast⟩
    refine ⟨behind, _, Nat.le_of_lt shorter, meetsLast, rfl, ?_, fun _ => rfl, rfl, rfl⟩
    intro token isHead
    obtain ⟨noArrow, noEquals⟩ := stops token isHead
    rw [state.accept?_argument noArrow noEquals (noComma token isHead), whole, List.reverse_nil,
      List.nil_append]

private theorem agrees_writeStatement {word : Token}
    (meets : Matches tokens endToken reading (state.goto (.writeWord word.pos)) cursor rest)
    (passed : Passed tokens cursor word) :
    Agrees reading (Completes tokens endToken reading state rest.length)
      (writeStatement tokens cursor) := by
  rw [writeStatement, bind_of_ok (previous_of_passed passed)]
  apply Agrees.bind (meets.consume (fun _ => state.goto (.writeOpen word.pos))
    rfl (fun _ _ => rfl) (fun _ => rfl) rfl (fun _ => rfl))
  rintro paren opened ⟨rest, rfl, meetsOpen⟩
  apply Agrees.bind (agrees_writtenValues meetsOpen)
  rintro arguments reached ⟨behind, next, noLonger, meetsNext, underWay, only, expects, noted, kept⟩
  apply Agrees.bind (meetsNext.consume (fun _ => state.push (.write arguments word.pos)) underWay
    only expects noted (fun _ => kept.symm))
  rintro paren closed ⟨others, rfl, meetsClosed⟩
  refine ⟨state.push (.write arguments word.pos), others, rfl, rfl, rfl, ?_, meetsClosed⟩
  simp only [List.length_cons] at noLonger ⊢
  omega

/-! ## Blocks -/

/-- The part `inner` reads fewer than `bound` tokens as the statements of an open block, up to a
closing brace or the end. -/
def ReadsBlock (tokens : List Token) (endToken : Token) (reading : Reading)
    (inner : Part (List Node)) (bound : Nat) : Prop :=
  ∀ (state : State) (cursor : Cursor) (rest : List Token),
    state.stage = .start → state.frames ≠ [] → rest.length < bound →
    Matches tokens endToken reading state cursor rest →
    Agrees reading
      (fun statements reached => ∃ next behind,
        next.stage = .start ∧ next.frames = state.frames ∧
        next.statements = statements.reverse ++ state.statements ∧
        behind.length ≤ rest.length ∧ (∀ token ∈ behind.head?, token.kind = .rightBrace) ∧
        Matches tokens endToken reading next reached behind)
      (inner cursor)

variable {inner : Part (List Node)} {bound : Nat}

private theorem agrees_block (reads : ReadsBlock tokens endToken reading inner bound)
    {condition : Node} {pos : Position}
    (meets : Matches tokens endToken reading (state.goto (.branchArrow condition pos)) cursor rest)
    (bounded : rest.length ≤ bound) :
    Agrees reading
      (fun body => Completes tokens endToken reading state rest.length
        (.branch condition body .missing pos))
      (block tokens inner cursor) := by
  rw [block]
  apply Agrees.bind (meets.consume (fun token => state.enter condition pos token.pos)
    rfl (fun _ _ => rfl) (fun _ => rfl) rfl (fun _ => rfl))
  rintro brace opened ⟨rest, rfl, meetsOpen⟩
  rw [List.length_cons] at bounded
  apply Agrees.bind (reads _ _ _ rfl (List.cons_ne_nil _ _) (by omega) meetsOpen)
  rintro statements reached ⟨next, behind, start, frames, isBody, noLonger, onlyBrace, meetsNext⟩
  let left : State :=
    { next with
      stage := .start
      statements :=
        .branch condition (.braced statements brace.pos) .missing pos :: state.statements
      frames := state.frames }
  have leaves : next.leave? = some left := by
    simp [State.leave?, frames, isBody, State.enter, Frame.node, left]
  have underWay : next.program? = none := by
    simp [State.program?, State.settle_of_start start, frames, State.enter]
  have only (token : Token) (isHead : token ∈ behind.head?) :
      next.accept? token = if token.kind = .rightBrace then some left else none := by
    rw [State.accept?_start start, State.start?, onlyBrace token isHead]
    exact leaves
  have expects (noBrace : ∀ token ∈ behind.head?, token.kind ≠ .rightBrace) :
      next.expected (behind.headD endToken) = .rightBrace := by
    -- Only the end can stand where a block should be closed and is not.
    cases behind with
    | nil => simp [State.expected, State.settle_of_start start, start, meetsNext.stands.isEnd]
    | cons token others => exact absurd (onlyBrace token rfl) (noBrace token rfl)
  have noted : next.lastNotes = next.notes := by
    rw [State.lastNotes, start]
  apply Agrees.bind (meetsNext.consume (fun _ => left) underWay only expects noted fun _ => rfl)
  rintro closing closed ⟨others, rfl, meetsClosed⟩
  refine ⟨left, others, rfl, rfl, rfl, ?_, meetsClosed⟩
  simp only [List.length_cons] at noLonger ⊢
  omega

private theorem agrees_ifStatement (reads : ReadsBlock tokens endToken reading inner bound)
    {word : Token}
    (meets : Matches tokens endToken reading (state.goto (.branchWord word.pos)) cursor rest)
    (passed : Passed tokens cursor word) (bounded : rest.length ≤ bound) :
    Agrees reading (Completes tokens endToken reading state rest.length)
      (ifStatement tokens inner cursor) := by
  rw [ifStatement, bind_of_ok (previous_of_passed passed)]
  apply Agrees.bind (meets.consume (fun _ => state.goto (.operand (.condition word.pos) none none))
    rfl (fun _ _ => rfl) (fun _ => rfl) rfl (fun _ => rfl))
  rintro arrow begins ⟨rest, rfl, meetsArrow⟩
  apply Agrees.bind (agrees_equality meetsArrow)
  rintro condition reached ⟨others, compared, joined, shorter, stops, rfl, meetsCondition⟩
  apply Agrees.bind (meetsCondition.consume
    (fun _ => state.goto (.branchArrow (compared.complete compareOperator joined) word.pos)) rfl
    (fun token isHead => state.accept?_condition (stops token isHead).1 (stops token isHead).2)
    (fun _ => rfl) rfl (fun _ => rfl))
  rintro doubleArrow decided ⟨others, rfl, meetsDouble⟩
  simp only [List.length_cons] at bounded shorter
  apply Agrees.bind (agrees_block reads meetsDouble (by omega))
  intro body final completes
  refine Completes.mono completes ?_
  rw [List.length_cons]
  omega

/-! ## All statements -/

private theorem agrees_plainStatement (reads : ReadsBlock tokens endToken reading inner bound)
    (stands : Stands tokens endToken cursor rest) (notes : cursor.notes = state.notes)
    (isReading : reading = state.readPlain endToken rest) (bounded : rest.length ≤ bound) :
    Agrees reading (Completes tokens endToken reading state rest.length)
      (plainStatement tokens inner cursor) := by
  rw [plainStatement]
  rcases head?_cases rest .ifWord with ⟨word, behind, rfl, isIf⟩ | noIf
  · rw [branch_of_true (accept_of_mem stands isIf),
      bind_of_ok (previous_of_passed stands.passed), bind_of_ok (note_apply _ _)]
    have meets :
        Matches tokens endToken reading
          ((state.note (.branch word.pos.line)).goto (.branchWord word.pos))
          (cursor.next.noting (.branch word.pos.line)) behind := by
      refine ⟨stands.next.noting _, congrArg _ notes, ?_⟩
      rw [isReading, State.readPlain, State.plain?, isIf]
    exact (agrees_ifStatement reads meets stands.passed (Nat.le_of_succ_le bounded)).within
      (Nat.le_succ _)
  rw [branch_of_false (accept_of_ne stands noIf)]
  rcases head?_cases rest .writeWord with ⟨word, behind, rfl, isWrite⟩ | noWrite
  · rw [branch_of_true (accept_of_mem stands isWrite),
      bind_of_ok (previous_of_passed stands.passed), bind_of_ok (note_apply _ _)]
    have meets :
        Matches tokens endToken reading
          ((state.note (.write word.pos.line)).goto (.writeWord word.pos))
          (cursor.next.noting (.write word.pos.line)) behind := by
      refine ⟨stands.next.noting _, congrArg _ notes, ?_⟩
      rw [isReading, State.readPlain, State.plain?, isWrite]
    exact (agrees_writeStatement meets stands.passed).within (Nat.le_succ _)
  · rw [branch_of_false (accept_of_ne stands noWrite)]
    rw [state.readPlain_operand endToken noIf noWrite] at isReading
    exact agrees_expressionStatement ⟨stands, notes, isReading⟩

private theorem agrees_namedStatement (reads : ReadsBlock tokens endToken reading inner bound)
    {name : Token}
    (meets : Matches tokens endToken reading (state.goto (.name name)) cursor rest)
    (bounded : rest.length ≤ bound) :
    Agrees reading (Completes tokens endToken reading state rest.length)
      (namedStatement tokens inner name cursor) := by
  rw [namedStatement]
  rcases head?_cases rest .typeMark with ⟨mark, behind, rfl, isMark⟩ | noMark
  · have accepted :
        (state.goto (.name name)).accept? mark = some (state.goto (.typeMark name)) := by
      rw [State.accept?_name, State.named?, isMark]
      rfl
    have meetsMark := meets.step accepted rfl
    rw [branch_of_true (accept_of_mem meets.stands isMark)]
    rcases head?_cases behind .identifier with ⟨first, others, rfl, isName⟩ | noName
    · rw [branch_of_true (check_of_mem meetsMark.stands isName), bind_of_ok (note_apply _ _)]
      have meetsValue :
          Matches tokens endToken reading
            ((state.note (.reassigned name.text)).goto
              (.operand (.assignment name.text name.pos) none none))
            (cursor.next.noting (.reassigned name.text)) (first :: others) := by
        refine ⟨meetsMark.stands.noting _, congrArg _ meets.notes, ?_⟩
        rw [meetsMark.isReading, state.read_reassigned endToken name isName]
      exact (agrees_assignment meetsValue).within (Nat.le_succ _)
    · rw [branch_of_false (check_of_ne meetsMark.stands noName), bind_of_ok (note_apply _ _)]
      exact (agrees_typeDeclaration (meetsMark.stands.noting _) (congrArg _ meets.notes)
        meetsMark.isReading noName).within (Nat.le_succ _)
  rw [branch_of_false (accept_of_ne meets.stands noMark)]
  rcases head?_cases rest .arrow with ⟨arrow, behind, rfl, isArrow⟩ | noArrow
  · rw [branch_of_true (accept_of_mem meets.stands isArrow), bind_of_ok (note_apply _ _)]
    have meetsValue :
        Matches tokens endToken reading
          ((state.note (.assigned name.text)).goto
            (.operand (.assignment name.text name.pos) none none))
          (cursor.next.noting (.assigned name.text)) behind := by
      refine ⟨meets.stands.next.noting _, congrArg _ meets.notes, ?_⟩
      rw [meets.isReading, State.read, State.accept?_name, State.named?, isArrow]
      rfl
    exact (agrees_assignment meetsValue).within (Nat.le_succ _)
  · rw [branch_of_false (accept_of_ne meets.stands noArrow), bind_of_ok (note_apply _ _)]
    have isPlain : reading = (state.note (.discarded name.text)).readPlain endToken rest := by
      rw [meets.isReading, state.read_name endToken name noMark noArrow]
    have sameNotes :
        (cursor.noting (.discarded name.text)).notes =
          (state.note (.discarded name.text)).notes :=
      congrArg _ meets.notes
    have agrees := agrees_plainStatement reads (meets.stands.noting _) sameNotes isPlain bounded
    exact agrees

/-- One statement is read, unless a block is open and its closing brace comes next. -/
theorem agrees_declaration (reads : ReadsBlock tokens endToken reading inner bound)
    {token : Token} (start : state.stage = .start)
    (noBlock : token.kind = .rightBrace → state.frames = [])
    (meets : Matches tokens endToken reading state cursor (token :: rest))
    (bounded : (token :: rest).length ≤ bound) :
    Agrees reading (Completes tokens endToken reading state (token :: rest).length)
      (declaration tokens inner cursor) := by
  have headIs (kind : Token.Kind) (isNot : token.kind ≠ kind) :
      ∀ head ∈ (token :: rest).head?, head.kind ≠ kind := by
    rintro head ⟨⟩
    exact isNot
  rw [declaration]
  by_cases isComment : token.kind = .comment
  · have accepted :
        state.accept? token = some (state.push (.comment token.text token.pos)) := by
      rw [State.accept?_start start, State.start?, isComment]
    rw [branch_of_true (accept_of_mem meets.stands isComment),
      bind_of_ok (previous_of_passed meets.stands.passed)]
    exact ⟨state.push (.comment token.text token.pos), rest, rfl, rfl, rfl, Nat.lt_succ_self _,
      meets.step accepted rfl⟩
  rw [branch_of_false (accept_of_ne meets.stands (headIs _ isComment))]
  by_cases isName : token.kind = .identifier
  · rw [branch_of_true (check_of_mem meets.stands isName),
      bind_of_ok (advance_cons meets.stands), bind_of_ok (note_apply _ _)]
    have meetsName :
        Matches tokens endToken reading
          ((state.note (.named token.text token.pos.line)).goto (.name token))
          (cursor.next.noting (.named token.text token.pos.line)) rest := by
      refine ⟨meets.stands.next.noting _, congrArg _ meets.notes, ?_⟩
      rw [meets.isReading, State.read, State.accept?_start start, State.start?, isName]
    exact (agrees_namedStatement reads meetsName (Nat.le_of_succ_le bounded)).within
      (Nat.le_succ _)
  · rw [branch_of_false (check_of_ne meets.stands (headIs _ isName))]
    have isPlain : reading = state.readPlain endToken (token :: rest) := by
      have proper := meets.stands.proper token List.mem_cons_self
      rw [meets.isReading, Reader.State.read_start start endToken proper isComment isName noBlock]
    exact agrees_plainStatement reads meets.stands meets.notes isPlain bounded

/-- By induction on the fuel, which bounds both the statements of the block and the depth of the
blocks inside. -/
private theorem readsBlock_blockStatements (fuel : Nat) :
    ReadsBlock tokens endToken reading (blockStatements tokens fuel) fuel := by
  induction fuel with
  | zero =>
      intro state cursor rest start inside enough meets
      exact absurd enough (Nat.not_lt_zero _)
  | succ fuel inductionHypothesis =>
      intro state cursor rest start inside enough meets
      rw [blockStatements]
      rcases head?_cases rest .rightBrace with ⟨brace, behind, rfl, isBrace⟩ | noBrace
      · rw [branch_of_true (check_of_mem meets.stands isBrace)]
        refine ⟨state, _, start, rfl, rfl, Nat.le_refl _, ?_, meets⟩
        rintro token ⟨⟩
        exact isBrace
      rw [branch_of_false (check_of_ne meets.stands noBrace)]
      cases rest with
      | nil =>
          rw [branch_of_true (atEnd_nil meets.stands)]
          refine ⟨state, [], start, rfl, rfl, Nat.le_refl _, ?_, meets⟩
          rintro token ⟨⟩
      | cons token rest =>
          rw [branch_of_false (atEnd_cons meets.stands)]
          -- The closing brace has been checked for, so the block stays open.
          have noBlock (isBrace : token.kind = .rightBrace) : state.frames = [] :=
            absurd isBrace (noBrace token rfl)
          apply Agrees.bind (agrees_declaration inductionHypothesis start noBlock meets
            (Nat.le_of_lt_succ enough))
          rintro statement reached ⟨next, others, nextStart, frames, isNext, shorter, meetsNext⟩
          apply Agrees.bind (inductionHypothesis next reached others nextStart (frames ▸ inside)
            (by omega) meetsNext)
          rintro statements final ⟨last, behind, lastStart, lastFrames, isLast, noLonger, onlyBrace,
            meetsLast⟩
          refine ⟨last, behind, lastStart, lastFrames.trans frames, ?_, by omega, onlyBrace,
            meetsLast⟩
          rw [isLast, isNext, List.reverse_cons, List.append_assoc, List.singleton_append]

/-- Outside of all blocks, statements are read up to the end. -/
theorem agrees_statements {fuel : Nat} (start : state.stage = .start) (outside : state.frames = [])
    (enough : rest.length < fuel)
    (meets : Matches tokens endToken reading state cursor rest) :
    Agrees reading
      (fun others reached =>
        reading = ⟨reached.notes.reverse, .ok (state.statements.reverse ++ others)⟩)
      (statements tokens fuel cursor) := by
  induction fuel generalizing state cursor rest with
  | zero =>
      exact absurd enough (Nat.not_lt_zero _)
  | succ fuel inductionHypothesis =>
      rw [statements]
      cases rest with
      | nil =>
          rw [branch_of_true (atEnd_nil meets.stands)]
          have ended : state.program? = some state.statements.reverse := by
            rw [State.program?_eq_some_iff, State.settle_of_start start]
            exact ⟨start, outside, rfl⟩
          show reading = ⟨cursor.notes.reverse, .ok (state.statements.reverse ++ [])⟩
          rw [meets.isReading, State.read, State.finish, ended, meets.notes, List.append_nil]
      | cons token rest =>
          rw [branch_of_false (atEnd_cons meets.stands)]
          apply Agrees.bind (agrees_declaration (readsBlock_blockStatements fuel) start
            (fun _ => outside) meets (Nat.le_of_lt_succ enough))
          rintro statement reached ⟨next, others, nextStart, frames, isNext, shorter, meetsNext⟩
          apply Agrees.bind (inductionHypothesis nextStart (frames.trans outside) (by omega)
            meetsNext)
          intro program final isReading
          show reading =
            ⟨final.notes.reverse, .ok (state.statements.reverse ++ statement :: program)⟩
          rw [isReading, isNext, List.reverse_cons, List.append_assoc, List.singleton_append]

end Parts

end Descent

end TriforceScript
