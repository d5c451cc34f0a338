import TriforceScript.Proofs.Grammar.Completeness

/-!
# From readings to derivations

Tokens that the reader makes a program of have a derivation.  A reading that comes
to its end is followed from the front: at every stage the tokens that come next must
be some part of a statement, and the reading goes on behind that part.
-/

namespace TriforceScript

namespace Grammar

open Reader

/-! ## Expressions -/

private theorem exists_operand_of_operand? {state next : State} {purpose : Purpose}
    {compared joined : Waiting} {token : Token}
    (accepted : state.operand? purpose compared joined token = some next) :
    ∃ operand : Operand,
      operand.token = token ∧
      next = state.goto (.operator purpose compared
        (joined.complete joinOperator operand.node)) := by
  unfold State.operand? at accepted
  split at accepted
  · rename_i isString
    exact ⟨.string ⟨token, isString⟩, rfl, (Option.some.inj accepted).symm⟩
  · rename_i isName
    exact ⟨.name ⟨token, isName⟩, rfl, (Option.some.inj accepted).symm⟩
  · cases accepted

private theorem exists_operand {state : State} {purpose : Purpose} {compared joined : Waiting}
    {tokens : List Token} {program : Program}
    (outcome :
      (state.goto (.operand purpose compared joined)).outcome? tokens = some program) :
    ∃ (operand : Operand) (rest : List Token),
      tokens = operand.token :: rest ∧
      (state.goto (.operator purpose compared
        (joined.complete joinOperator operand.node))).outcome? rest = some program := by
  cases tokens with
  | nil =>
      simp [State.outcome?_nil, State.program?, State.settle] at outcome
  | cons token rest =>
      rw [State.outcome?_cons, Option.bind_eq_some_iff] at outcome
      obtain ⟨next, accepted, outcome⟩ := outcome
      obtain ⟨operand, rfl, rfl⟩ := exists_operand_of_operand? accepted
      exact ⟨operand, rest, rfl, outcome⟩

private theorem exists_joinLinks {state : State} {purpose : Purpose} {compared : Waiting}
    {joined : Node} {tokens : List Token} {program : Program}
    (outcome :
      (state.goto (.operator purpose compared joined)).outcome? tokens = some program) :
    ∃ (links : List (Terminal .arrow × Operand)) (rest : List Token),
      tokens = Chain.linkTokens (fun operand => [operand.token]) links ++ rest ∧
      (∀ token ∈ rest.head?, token.kind ≠ .arrow) ∧
      (state.goto (.operator purpose compared
        (Chain.linkNode joinOperator Operand.node joined links))).outcome? rest =
          some program := by
  cases tokens with
  | nil =>
      exact ⟨[], [], rfl, by simp, outcome⟩
  | cons token rest =>
      by_cases isArrow : token.kind = .arrow
      · have accepted :
            (state.goto (.operator purpose compared joined)).accept? token =
              some (state.goto (.operand purpose compared (some (joined, token.pos)))) := by
          simp [State.accept?, State.operator?, isArrow]
        rw [State.outcome?_cons, accepted, Option.bind_some] at outcome
        obtain ⟨operand, others, rfl, afterOperand⟩ := exists_operand outcome
        obtain ⟨links, behind, rfl, noArrow, afterLinks⟩ := exists_joinLinks afterOperand
        exact ⟨(⟨token, isArrow⟩, operand) :: links, behind, rfl, noArrow, afterLinks⟩
      · exact ⟨[], token :: rest, rfl, by simpa using isArrow, outcome⟩
termination_by tokens.length

private theorem exists_compareLinks {state : State} {purpose : Purpose} {compared : Waiting}
    {joined : Node} {tokens : List Token} {program : Program}
    (noArrow : ∀ token ∈ tokens.head?, token.kind ≠ .arrow)
    (outcome :
      (state.goto (.operator purpose compared joined)).outcome? tokens = some program) :
    ∃ (links : List (Terminal .equalsEquals × Join)) (rest : List Token) (compared' : Waiting)
        (joined' : Node),
      tokens = Chain.linkTokens Join.tokens links ++ rest ∧
      Token.Stops rest ∧
      compared'.complete compareOperator joined' =
        Chain.linkNode compareOperator Join.node
          (compared.complete compareOperator joined) links ∧
      (state.goto (.operator purpose compared' joined')).outcome? rest = some program := by
  cases tokens with
  | nil =>
      exact ⟨[], [], compared, joined, rfl, by simp [Token.Stops], rfl, outcome⟩
  | cons token rest =>
      by_cases isEquals : token.kind = .equalsEquals
      · let value := compared.complete compareOperator joined
        have accepted :
            (state.goto (.operator purpose compared joined)).accept? token =
              some (state.goto (.operand purpose (some (value, token.pos)) none)) := by
          simp [State.accept?, State.operator?, isEquals, value]
        rw [State.outcome?_cons, accepted, Option.bind_some] at outcome
        obtain ⟨operand, others, rfl, afterOperand⟩ := exists_operand outcome
        obtain ⟨joinLinks, middle, rfl, noArrow', afterJoin⟩ := exists_joinLinks afterOperand
        obtain ⟨links, behind, compared', joined', rfl, stops, whole, afterLinks⟩ :=
          exists_compareLinks noArrow' afterJoin
        let join : Join := ⟨operand, joinLinks⟩
        refine ⟨(⟨token, isEquals⟩, join) :: links, behind, compared', joined', ?_, stops, whole,
          afterLinks⟩
        simp [Chain.linkTokens, Join.tokens, Chain.tokens, join]
      · refine ⟨[], token :: rest, compared, joined, rfl, ?_, rfl, outcome⟩
        intro first member
        cases member
        exact ⟨noArrow token rfl, isEquals⟩
termination_by tokens.length
decreasing_by
  subst_vars
  simp only [List.length_cons, List.length_append]
  omega

private theorem exists_following {state : State} {purpose : Purpose} {operand : Operand}
    {tokens : List Token} {program : Program}
    (outcome :
      (state.goto (.operator purpose none operand.node)).outcome? tokens = some program) :
    ∃ (expression : Expression) (rest : List Token) (compared : Waiting) (joined : Node),
      expression.leading = operand ∧
      tokens = expression.following ++ rest ∧
      Token.Stops rest ∧
      compared.complete compareOperator joined = expression.node ∧
      (state.goto (.operator purpose compared joined)).outcome? rest = some program := by
  obtain ⟨joinLinks, middle, rfl, noArrow, afterJoin⟩ := exists_joinLinks outcome
  obtain ⟨links, rest, compared, joined, rfl, stops, whole, afterLinks⟩ :=
    exists_compareLinks noArrow afterJoin
  refine ⟨⟨⟨operand, joinLinks⟩, links⟩, rest, compared, joined, rfl, ?_, stops, whole, afterLinks⟩
  rw [Expression.following, List.append_assoc]

/-- Where an operand is due, a reading goes on with an expression. -/
private theorem exists_expression {state : State} {purpose : Purpose} {tokens : List Token}
    {program : Program}
    (outcome : (state.goto (.operand purpose none none)).outcome? tokens = some program) :
    ∃ (expression : Expression) (rest : List Token) (compared : Waiting) (joined : Node),
      tokens = expression.tokens ++ rest ∧
      Token.Stops rest ∧
      compared.complete compareOperator joined = expression.node ∧
      (state.goto (.operator purpose compared joined)).outcome? rest = some program := by
  obtain ⟨operand, others, rfl, afterOperand⟩ := exists_operand outcome
  obtain ⟨expression, rest, compared, joined, rfl, rfl, stops, whole, afterExpression⟩ :=
    exists_following afterOperand
  refine ⟨expression, rest, compared, joined, ?_, stops, whole, afterExpression⟩
  rw [Expression.tokens_eq, List.cons_append]

/-! ## Parts of statements -/

private theorem stops_of_start {state : State} {tokens : List Token} {program : Program}
    (start : state.stage = .start) (outcome : state.outcome? tokens = some program) :
    Token.Stops tokens := by
  intro token member
  cases tokens with
  | nil =>
      simp at member
  | cons first rest =>
      cases member
      rw [State.outcome?_cons, Option.bind_eq_some_iff] at outcome
      obtain ⟨next, accepted, -⟩ := outcome
      constructor <;> intro isOperator <;>
        simp [State.accept?, start, State.start?, State.plain?, State.operand?, isOperator]
          at accepted

/-- A reading that has come to a fixed token goes on with that token. -/
private theorem exists_fixed {state : State} {go : Token → State} {kind : Token.Kind}
    {tokens : List Token} {program : Program} (underWay : state.program? = none)
    (only : ∀ token, state.accept? token = if token.kind = kind then some (go token) else none)
    (outcome : state.outcome? tokens = some program) :
    ∃ (terminal : Terminal kind) (rest : List Token),
      tokens = terminal.token :: rest ∧ (go terminal.token).outcome? rest = some program := by
  cases tokens with
  | nil =>
      rw [State.outcome?_nil, underWay] at outcome
      cases outcome
  | cons token rest =>
      rw [State.outcome?_cons, only] at outcome
      by_cases isKind : token.kind = kind
      · rw [if_pos isKind, Option.bind_some] at outcome
        exact ⟨⟨token, isKind⟩, rest, rfl, outcome⟩
      · simp [isKind] at outcome

private theorem exists_argumentLinks {state : State} {others : List Node} {pos : Position}
    {compared : Waiting} {joined : Node} {tokens : List Token} {program : Program}
    (stops : Token.Stops tokens)
    (outcome :
      (state.goto (.operator (.argument others pos) compared joined)).outcome? tokens =
        some program) :
    ∃ (links : List (Terminal .comma × Expression)) (right : Terminal .rightParen)
        (rest : List Token),
      tokens = Chain.linkTokens Expression.tokens links ++ right.token :: rest ∧
      Token.Stops rest := by
  cases tokens with
  | nil =>
      simp [State.outcome?_nil, State.program?, State.settle, Purpose.statement?] at outcome
  | cons token rest =>
      obtain ⟨noArrow, noEquals⟩ := stops token rfl
      rw [State.outcome?_cons, State.accept?_operator] at outcome
      by_cases isComma : token.kind = .comma
      · simp only [State.operator?, isComma, State.goto_goto, Option.bind_some] at outcome
        obtain ⟨expression, middle, compared', joined', rfl, stops', -, afterValue⟩ :=
          exists_expression outcome
        obtain ⟨links, right, behind, rfl, stopsBehind⟩ :=
          exists_argumentLinks stops' afterValue
        refine ⟨(⟨token, isComma⟩, expression) :: links, right, behind, ?_, stopsBehind⟩
        simp [Chain.linkTokens]
      · by_cases isParen : token.kind = .rightParen
        · simp only [State.operator?, isParen, Option.bind_some] at outcome
          exact ⟨[], ⟨token, isParen⟩, rest, rfl, stops_of_start rfl outcome⟩
        · simp [State.operator?, isComma, isParen, Purpose.statement?] at outcome
termination_by tokens.length
decreasing_by
  subst_vars
  simp only [List.length_cons, List.length_append]
  omega

private theorem exists_arguments {state : State} {pos : Position} {tokens : List Token}
    {program : Program} (outcome : (state.goto (.writeOpen pos)).outcome? tokens = some program) :
    ∃ (arguments : Arguments) (right : Terminal .rightParen) (rest : List Token),
      tokens = arguments.tokens ++ right.token :: rest ∧ Token.Stops rest := by
  cases tokens with
  | nil =>
      simp [State.outcome?_nil, State.program?, State.settle] at outcome
  | cons token rest =>
      rw [State.outcome?_cons, State.accept?, State.stage_goto] at outcome
      by_cases isParen : token.kind = .rightParen
      · simp only [isParen, if_true, Option.bind_some] at outcome
        exact ⟨none, ⟨token, isParen⟩, rest, rfl, stops_of_start rfl outcome⟩
      · simp only [isParen, if_false, Option.bind_eq_some_iff] at outcome
        obtain ⟨next, accepted, outcome⟩ := outcome
        obtain ⟨operand, rfl, rfl⟩ := exists_operand_of_operand? accepted
        rw [State.goto_goto] at outcome
        obtain ⟨expression, middle, compared, joined, rfl, rfl, stops, -, afterValue⟩ :=
          exists_following outcome
        obtain ⟨links, right, behind, rfl, stopsBehind⟩ := exists_argumentLinks stops afterValue
        refine ⟨some ⟨expression, links⟩, right, behind, ?_, stopsBehind⟩
        simp [Arguments.tokens, Chain.tokens, Expression.tokens_eq]

private theorem exists_branchHead {state : State} {pos : Position} {tokens : List Token}
    {program : Program} (outcome : (state.goto (.branchWord pos)).outcome? tokens = some program) :
    ∃ (arrow : Terminal .arrow) (condition : Expression) (doubleArrow : Terminal .doubleArrow)
        (left : Terminal .leftBrace) (rest : List Token),
      tokens = arrow.token :: condition.tokens ++ doubleArrow.token :: left.token :: rest ∧
      (state.enter condition.node pos left.token.pos).outcome? rest = some program := by
  obtain ⟨arrow, others, rfl, afterArrow⟩ := exists_fixed rfl (fun _ => rfl) outcome
  rw [State.goto_goto] at afterArrow
  obtain ⟨condition, behind, compared, joined, rfl, stops, whole, afterCondition⟩ :=
    exists_expression afterArrow
  cases behind with
  | nil =>
      simp [State.outcome?_nil, State.program?, State.settle, Purpose.statement?]
        at afterCondition
  | cons token rest =>
      obtain ⟨noArrow, noEquals⟩ := stops token rfl
      rw [State.outcome?_cons, State.accept?_operator] at afterCondition
      by_cases isDouble : token.kind = .doubleArrow
      · simp only [State.operator?, isDouble, State.goto_goto, Option.bind_some, whole]
          at afterCondition
        obtain ⟨left, inside, rfl, entered⟩ := exists_fixed rfl (fun _ => rfl) afterCondition
        exact ⟨arrow, condition, ⟨token, isDouble⟩, left, inside, by simp, entered⟩
      · simp [State.operator?, isDouble, Purpose.statement?] at afterCondition

/-! ## Statements -/

/-- Whether every reading of tokens from between statements starts with statements, up
to a closing brace or the end, and goes on behind them. -/
def Splits (tokens : List Token) : Prop :=
  ∀ (state : State) (program : Program),
    state.stage = .start →
    state.outcome? tokens = some program →
    ∃ (statements : List Statement) (behind : List Token),
      tokens = Statement.allTokens statements ++ behind ∧
      (∀ token ∈ behind.head?, token.kind = .rightBrace) ∧
      (extend state statements).outcome? behind = some program

/-- In an open block, statements end with a closing brace. -/
private theorem exists_block {state : State} {tokens : List Token} {program : Program}
    (splits : Splits tokens) (start : state.stage = .start) (inside : state.frames ≠ [])
    (outcome : state.outcome? tokens = some program) :
    ∃ (body : List Statement) (right : Terminal .rightBrace) (rest : List Token),
      tokens = Statement.allTokens body ++ right.token :: rest ∧ Token.Stops rest := by
  obtain ⟨body, behind, rfl, closes, outcome⟩ := splits state program start outcome
  cases behind with
  | nil =>
      -- The tokens may not end in an open block.
      rw [State.outcome?_nil, State.program?_eq_some_iff] at outcome
      exact absurd outcome.2.1 inside
  | cons token rest =>
      have isBrace := closes token rfl
      rw [State.outcome?_cons, Option.bind_eq_some_iff] at outcome
      obtain ⟨next, accepted, outcome⟩ := outcome
      have nextStart : next.stage = .start := by
        simp only [State.accept?, extend, State.start?, isBrace, State.leave?] at accepted
        split at accepted
        · cases accepted
        · cases accepted
          rfl
      exact ⟨body, ⟨token, isBrace⟩, rest, rfl, stops_of_start nextStart outcome⟩

private theorem exists_tail {state : State} {lead : Lead} {token : Token} {rest : List Token}
    {program : Program} (led : lead = none → token.kind ≠ .identifier)
    (splits : ∀ body : List Token, body.length < rest.length → Splits body)
    (outcome :
      ((state.plain? token).bind fun next => next.outcome? rest) = some program) :
    ∃ (statement : Statement) (behind : List Token),
      lead.tokens ++ token :: rest = statement.tokens ++ behind ∧ Token.Stops behind := by
  rw [Option.bind_eq_some_iff] at outcome
  obtain ⟨next, accepted, outcome⟩ := outcome
  unfold State.plain? at accepted
  split at accepted
  · rename_i isIf
    cases accepted
    obtain ⟨arrow, condition, doubleArrow, left, inside, rfl, entered⟩ :=
      exists_branchHead outcome
    have shorter : Splits inside := by
      apply splits
      simp only [List.length_append, List.length_cons]
      omega
    obtain ⟨body, right, behind, rfl, stops⟩ := exists_block shorter rfl (by simp [State.enter])
      entered
    refine ⟨.branch lead ⟨token, isIf⟩ arrow condition doubleArrow left body right, behind, ?_,
      stops⟩
    simp [Statement.tokens]
  · rename_i isWrite
    cases accepted
    obtain ⟨left, inside, rfl, opened⟩ := exists_fixed rfl (fun _ => rfl) outcome
    obtain ⟨arguments, right, behind, rfl, stops⟩ := exists_arguments opened
    refine ⟨.write lead ⟨token, isWrite⟩ left arguments right, behind, ?_, stops⟩
    simp [Statement.tokens]
  · obtain ⟨operand, rfl, rfl⟩ := exists_operand_of_operand? accepted
    obtain ⟨value, behind, compared, joined, rfl, rfl, stops, -, -⟩ := exists_following outcome
    have led' : lead = none → value.leading.isName = false := by
      intro none
      have noName := led none
      cases leading : value.leading <;> simp_all [Operand.isName, Operand.token]
    refine ⟨.expression lead value led', behind, ?_, stops⟩
    simp [Statement.tokens, Expression.tokens_eq]

private theorem exists_named {state : State} (name : Terminal .identifier) {tokens : List Token}
    {program : Program}
    (splits : ∀ body : List Token, body.length < tokens.length → Splits body)
    (outcome : (state.goto (.name name.token)).outcome? tokens = some program) :
    ∃ (statement : Statement) (behind : List Token),
      name.token :: tokens = statement.tokens ++ behind ∧ Token.Stops behind := by
  cases tokens with
  | nil =>
      simp [State.outcome?_nil, State.program?, State.settle] at outcome
  | cons token rest =>
      rw [State.outcome?_cons, State.accept?_name] at outcome
      unfold State.named? at outcome
      split at outcome
      · rename_i isMark
        rw [Option.bind_some, State.goto_goto] at outcome
        cases rest with
        | nil =>
            simp [State.outcome?_nil, State.program?, State.settle] at outcome
        | cons second others =>
            rw [State.outcome?_cons, State.accept?_typeMark] at outcome
            unfold State.typed? at outcome
            split at outcome
            · rename_i isName
              rw [Option.bind_eq_some_iff] at outcome
              obtain ⟨next, accepted, outcome⟩ := outcome
              obtain ⟨operand, rfl, rfl⟩ := exists_operand_of_operand? accepted
              obtain ⟨value, behind, compared, joined, rfl, rfl, stops, -, -⟩ :=
                exists_following outcome
              have named : value.leading.isName = true := by
                cases leading : value.leading with
                | string terminal => simp [leading, Operand.token] at isName
                | name terminal => rfl
              refine ⟨.reassignment name ⟨token, isMark⟩ value named, behind, ?_, stops⟩
              simp [Statement.tokens, Expression.tokens_eq]
            · rename_i isOpen
              rw [Option.bind_some] at outcome
              obtain ⟨type, _, rfl, afterType⟩ := exists_fixed rfl (fun _ => rfl) outcome
              obtain ⟨right, _, rfl, afterRight⟩ := exists_fixed rfl (fun _ => rfl) afterType
              obtain ⟨arrow, _, rfl, afterArrow⟩ := exists_fixed rfl (fun _ => rfl) afterRight
              obtain ⟨value, behind, compared, joined, rfl, stops, -, -⟩ :=
                exists_expression afterArrow
              exact ⟨.declaration name ⟨token, isMark⟩ ⟨second, isOpen⟩ type right arrow value,
                behind, rfl, stops⟩
            · simp at outcome
      · rename_i isArrow
        obtain ⟨value, behind, compared, joined, rfl, stops, -, -⟩ := exists_expression outcome
        exact ⟨.assignment name ⟨token, isArrow⟩ value, behind, rfl, stops⟩
      · have shorter : ∀ body : List Token, body.length < rest.length → Splits body := by
          intro body bound
          apply splits
          simp only [List.length_cons]
          omega
        have led : (some name : Lead) = none → token.kind ≠ .identifier := by
          intro none
          cases none
        exact exists_tail led shorter outcome

/-- A reading between statements goes on with a whole statement, unless with a brace. -/
theorem exists_statement {state : State} {token : Token} {rest : List Token}
    {program : Program} (start : state.stage = .start) (noBrace : token.kind ≠ .rightBrace)
    (splits : ∀ body : List Token, body.length < rest.length → Splits body)
    (outcome : state.outcome? (token :: rest) = some program) :
    ∃ (statement : Statement) (behind : List Token),
      token :: rest = statement.tokens ++ behind ∧ Token.Stops behind := by
  rw [State.outcome?_cons, State.accept?_start start] at outcome
  unfold State.start? at outcome
  split at outcome
  · rename_i isComment
    exact ⟨.comment ⟨token, isComment⟩, rest, rfl, stops_of_start rfl outcome⟩
  · rename_i isName
    exact exists_named ⟨token, isName⟩ splits outcome
  · contradiction
  · rename_i noName _
    have led : (none : Lead) = none → token.kind ≠ .identifier := fun _ => noName
    exact exists_tail led splits outcome

/-- Every reading from between statements starts with statements. -/
theorem splits (tokens : List Token) : Splits tokens := by
  intro state program start outcome
  cases tokens with
  | nil =>
      refine ⟨[], [], rfl, by simp, ?_⟩
      rw [extend_nil start]
      exact outcome
  | cons token rest =>
      by_cases isBrace : token.kind = .rightBrace
      · refine ⟨[], token :: rest, rfl, by simpa using isBrace, ?_⟩
        rw [extend_nil start]
        exact outcome
      · have shorter : ∀ body : List Token, body.length < rest.length → Splits body :=
          fun body _ => splits body
        obtain ⟨statement, behind, shape, stops⟩ :=
          exists_statement start isBrace shorter outcome
        -- The run along the statement is known, and what it leaves to settle does not matter.
        obtain ⟨reached, run, settled⟩ := run_statement statement start
        rw [shape, State.outcome?_append_of_run run, ← reached.outcome?_settle stops, settled]
          at outcome
        obtain ⟨statements, others, rfl, closes, outcome⟩ :=
          splits behind (extend state [statement]) program rfl outcome
        refine ⟨statement :: statements, others, ?_, closes, ?_⟩
        · rw [shape, Statement.allTokens, List.append_assoc]
        · rw [extend_cons]
          exact outcome
termination_by tokens.length
decreasing_by
  · subst_vars
    simp only [List.length_cons]
    omega
  · obtain ⟨first, others, tokens, -⟩ := exists_first statement
    have lengths := congrArg List.length shape
    subst_vars
    simp only [tokens, List.length_cons, List.length_append] at lengths ⊢
    omega

/-- Every program that is read has a derivation. -/
theorem exists_derivation {tokens : List Token} {program : Program}
    (outcome : ({} : State).outcome? tokens = some program) :
    ∃ derivation : Derivation, derivation.tokens = tokens ∧ derivation.program = program := by
  obtain ⟨derivation, behind, rfl, closes, outcome⟩ := splits tokens {} program rfl outcome
  cases behind with
  | nil =>
      rw [State.outcome?_nil, State.program?_eq_some_iff] at outcome
      refine ⟨derivation, (List.append_nil _).symm, ?_⟩
      rw [← outcome.2.2]
      simp [extend, State.settle, Derivation.program]
  | cons token rest =>
      -- Outside of all blocks there is nothing to close.
      have isBrace := closes token rfl
      simp [State.outcome?_cons, State.accept?, extend, State.start?, isBrace, State.leave?]
        at outcome

end Grammar

end TriforceScript
