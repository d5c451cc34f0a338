import TriforceScript.Proofs.Grammar.Derivation
import TriforceScript.Proofs.Reader.Run

/-!
# Running along derivations

The reader accepts the tokens of every derivation, one after another.  Behind the
tokens of statements it has the trees of these statements and their notes on top of
what it had before, and nothing else has changed.
-/

namespace TriforceScript

namespace Grammar

open Reader

/-! ## Expressions -/

private theorem operand?_token (state : State) (purpose : Purpose) (compared joined : Waiting)
    (operand : Operand) :
    state.operand? purpose compared joined operand.token =
      some (state.goto (.operator purpose compared
        (joined.complete joinOperator operand.node))) := by
  cases operand <;> simp [State.operand?, Operand.token, Operand.node]

private theorem accept?_operand (state : State) (purpose : Purpose) (compared joined : Waiting)
    (operand : Operand) :
    (state.goto (.operand purpose compared joined)).accept? operand.token =
      some (state.goto (.operator purpose compared
        (joined.complete joinOperator operand.node))) :=
  operand?_token (state.goto (.operand purpose compared joined)) purpose compared joined operand

private theorem run_joinLinks (state : State) (purpose : Purpose) (compared : Waiting)
    (joined : Node) (links : List (Terminal .arrow × Operand)) :
    (state.goto (.operator purpose compared joined)).run
        (Chain.linkTokens (fun operand => [operand.token]) links) =
      some (state.goto (.operator purpose compared
        (Chain.linkNode joinOperator Operand.node joined links))) := by
  induction links generalizing joined with
  | nil =>
      rfl
  | cons link rest inductionHypothesis =>
      obtain ⟨arrow, operand⟩ := link
      have arrowAccepted :
          (state.goto (.operator purpose compared joined)).accept? arrow.token =
            some (state.goto (.operand purpose compared
              (some (joined, arrow.token.pos)))) := by
        simp [State.accept?, State.operator?]
      have tokens :
          Chain.linkTokens (fun operand => [Operand.token operand]) ((arrow, operand) :: rest) =
            arrow.token :: operand.token ::
              Chain.linkTokens (fun operand => [operand.token]) rest := rfl
      rw [tokens, State.run_cons_of_accept? arrowAccepted,
        State.run_cons_of_accept? (accept?_operand _ _ _ _ _)]
      exact inductionHypothesis _

/-- Comparing with further joins goes on with the same purpose, and the value that
is reached is that of all joins. -/
private theorem run_compareLinks (state : State) (purpose : Purpose) (compared : Waiting)
    (joined : Node) (links : List (Terminal .equalsEquals × Join)) :
    ∃ compared' joined',
      (state.goto (.operator purpose compared joined)).run
          (Chain.linkTokens Join.tokens links) =
        some (state.goto (.operator purpose compared' joined')) ∧
      compared'.complete compareOperator joined' =
        Chain.linkNode compareOperator Join.node
          (compared.complete compareOperator joined) links := by
  induction links generalizing compared joined with
  | nil =>
      exact ⟨compared, joined, rfl, rfl⟩
  | cons link rest inductionHypothesis =>
      obtain ⟨equals, join⟩ := link
      let value := compared.complete compareOperator joined
      have equalsAccepted :
          (state.goto (.operator purpose compared joined)).accept? equals.token =
            some (state.goto (.operand purpose (some (value, equals.token.pos)) none)) := by
        simp [State.accept?, State.operator?, value]
      have tokens :
          Chain.linkTokens Join.tokens ((equals, join) :: rest) =
            equals.token :: join.first.token ::
              (Chain.linkTokens (fun operand => [operand.token]) join.rest ++
                Chain.linkTokens Join.tokens rest) := by
        simp [Chain.linkTokens, Join.tokens, Chain.tokens]
      obtain ⟨compared', joined', reached, whole⟩ :=
        inductionHypothesis (some (value, equals.token.pos)) join.node
      refine ⟨compared', joined', ?_, whole⟩
      rw [tokens, State.run_cons_of_accept? equalsAccepted,
        State.run_cons_of_accept? (accept?_operand _ _ _ _ _),
        State.run_append_of_run (run_joinLinks _ _ _ _ _)]
      exact reached

private theorem run_following (state : State) (purpose : Purpose) (expression : Expression) :
    ∃ compared joined,
      (state.goto (.operator purpose none expression.leading.node)).run expression.following =
        some (state.goto (.operator purpose compared joined)) ∧
      compared.complete compareOperator joined = expression.node := by
  obtain ⟨compared, joined, reached, whole⟩ :=
    run_compareLinks state purpose none expression.first.node expression.rest
  refine ⟨compared, joined, ?_, whole⟩
  rw [Expression.following, State.run_append_of_run (run_joinLinks _ _ _ _ _)]
  exact reached

/-- Where an operand is due, an expression is read up to its value. -/
theorem run_expression (state : State) (purpose : Purpose) (expression : Expression) :
    ∃ compared joined,
      (state.goto (.operand purpose none none)).run expression.tokens =
        some (state.goto (.operator purpose compared joined)) ∧
      compared.complete compareOperator joined = expression.node := by
  rw [Expression.tokens_eq, State.run_cons_of_accept? (accept?_operand _ _ _ _ _)]
  exact run_following state purpose expression

private theorem run_value (state : State) {purpose : Purpose} {expression : Expression}
    {statement : Node} (completed : purpose.statement? expression.node = some statement) :
    ∃ reached,
      (state.goto (.operand purpose none none)).run expression.tokens = some reached ∧
      reached.settle = state.push statement := by
  obtain ⟨compared, joined, reached, whole⟩ := run_expression state purpose expression
  refine ⟨_, reached, ?_⟩
  rw [← whole] at completed
  exact State.settle_operator rfl completed

private theorem run_argumentLinks (state : State) (others : List Node) (pos : Position)
    (compared : Waiting) (joined : Node) (links : List (Terminal .comma × Expression))
    (right : Terminal .rightParen) :
    (state.goto (.operator (.argument others pos) compared joined)).run
        (Chain.linkTokens Expression.tokens links ++ [right.token]) =
      some (state.push (.write
        ((compared.complete compareOperator joined :: others).reverse ++
          links.map fun link => link.2.node) pos)) := by
  induction links generalizing others compared joined with
  | nil =>
      have closed :
          (state.goto (.operator (.argument others pos) compared joined)).accept? right.token =
            some (state.push (.write
              (compared.complete compareOperator joined :: others).reverse pos)) := by
        simp only [State.accept?, State.stage_goto, State.operator?, Terminal.kind_eq]
        rfl
      rw [Chain.linkTokens, List.flatMap_nil, List.nil_append, State.run_cons_of_accept? closed,
        List.map_nil, List.append_nil, State.run_nil]
  | cons link rest inductionHypothesis =>
      obtain ⟨comma, expression⟩ := link
      let value := compared.complete compareOperator joined
      have commaAccepted :
          (state.goto (.operator (.argument others pos) compared joined)).accept? comma.token =
            some (state.goto (.operand (.argument (value :: others) pos) none none)) := by
        simp [State.accept?, State.operator?, value]
      have tokens :
          Chain.linkTokens Expression.tokens ((comma, expression) :: rest) ++ [right.token] =
            comma.token :: (expression.tokens ++
              (Chain.linkTokens Expression.tokens rest ++ [right.token])) := by
        simp [Chain.linkTokens]
      obtain ⟨compared', joined', reached, whole⟩ :=
        run_expression state (.argument (value :: others) pos) expression
      rw [tokens, State.run_cons_of_accept? commaAccepted, State.run_append_of_run reached,
        inductionHypothesis, whole]
      simp [value]

/-! ## Statements -/

/-- A state with the notes of a name in front of a tail. -/
def withLead (state : State) (lead : Lead) : State :=
  { state with notes := lead.notes.reverse ++ state.notes }

/-- A state with the trees and the notes of statements on top of its own. -/
def extend (state : State) (statements : List Statement) : State :=
  { state with
    stage := .start
    statements := (Statement.allNodes statements).reverse ++ state.statements
    notes := (Statement.allNotes statements).reverse ++ state.notes }

theorem extend_nil {state : State} (start : state.stage = .start) : extend state [] = state := by
  rw [extend, ← start]
  rfl

theorem extend_cons (state : State) (statement : Statement) (rest : List Statement) :
    extend state (statement :: rest) = extend (extend state [statement]) rest := by
  simp [extend, Statement.allNodes, Statement.allNotes]

theorem plain?_goto (state : State) (stage : Stage) (token : Token) :
    (state.goto stage).plain? token = state.plain? token := by
  unfold State.plain?
  split
  · rfl
  · rfl
  · unfold State.operand?
    split <;> rfl

/-- A name in front of a tail leaves its notes, and the tail starts as if it stood
alone.  Without a name, the tail must not start with one. -/
private theorem run_lead {state : State} (start : state.stage = .start) (lead : Lead)
    {token : Token} (led : lead = none → token.kind ≠ .identifier)
    (starts : token.kind ∉ [.comment, .rightBrace, .typeMark, .arrow]) (rest : List Token) :
    state.run (lead.tokens ++ token :: rest) =
      ((withLead state lead).plain? token).bind fun next => next.run rest := by
  simp only [List.mem_cons, List.not_mem_nil, or_false, not_or] at starts
  obtain ⟨noComment, noBrace, noMark, noArrow⟩ := starts
  cases lead with
  | none =>
      have plain : state.accept? token = state.plain? token := by
        simp [State.accept?, start, State.start?, led rfl]
      rw [Lead.tokens, List.nil_append, State.run_cons, plain]
      rfl
  | some name =>
      let named := (state.note (.named name.token.text name.token.pos.line)).goto
        (.name name.token)
      have nameAccepted : state.accept? name.token = some named := by
        simp [State.accept?, start, State.start?, named]
      have plain :
          named.accept? token = (named.note (.discarded name.token.text)).plain? token := by
        simp [State.accept?, named, State.named?]
      rw [Lead.tokens, List.singleton_append, State.run_cons_of_accept? nameAccepted,
        State.run_cons, plain]
      exact congrArg (fun first => Option.bind first fun next => next.run rest)
        (plain?_goto (withLead state (some name)) (.name name.token) token)

/-- No statement starts with an operator or with a closing brace. -/
theorem exists_first (statement : Statement) :
    ∃ token rest,
      statement.tokens = token :: rest ∧
      token.kind ∉ [.arrow, .equalsEquals, .rightBrace] := by
  cases statement with
  | branch lead | write lead =>
      cases lead <;> simp [Statement.tokens, Lead.tokens]
  | expression lead value led =>
      cases lead with
      | none =>
          cases leading : value.leading <;>
            simp [Statement.tokens, Lead.tokens, Expression.tokens_eq, leading, Operand.token]
      | some name =>
          simp [Statement.tokens, Lead.tokens]
  | _ => simp [Statement.tokens]

private theorem run_expressionStatement {state : State} (start : state.stage = .start) (lead : Lead)
    (value : Expression) (led : lead = none → value.leading.isName = false) :
    ∃ reached,
      state.run (Statement.expression lead value led).tokens = some reached ∧
      reached.settle = extend state [.expression lead value led] := by
  obtain ⟨compared, joined, reached, whole⟩ :=
    run_following (withLead state lead) .statement value
  have led' : lead = none → value.leading.token.kind ≠ .identifier := by
    intro none
    have noName := led none
    cases leading : value.leading <;> simp_all [Operand.isName, Operand.token]
  have starts :
      value.leading.token.kind ∉ [Token.Kind.comment, .rightBrace, .typeMark, .arrow] := by
    cases value.leading <;> simp [Operand.token]
  have plain :
      (withLead state lead).plain? value.leading.token =
        some ((withLead state lead).goto (.operator .statement none value.leading.node)) := by
    have operandDue :
        (withLead state lead).plain? value.leading.token =
          (withLead state lead).operand? .statement none none value.leading.token := by
      cases value.leading <;> simp [State.plain?, Operand.token]
    rw [operandDue]
    exact operand?_token _ _ _ _ _
  refine ⟨(withLead state lead).goto (.operator .statement compared joined), ?_, ?_⟩
  · rw [Statement.tokens, Expression.tokens_eq, run_lead start lead led' starts, plain,
      Option.bind_some]
    exact reached
  · have completed :
        Purpose.statement? (compared.complete compareOperator joined) .statement =
          some (.expression value.node value.node.pos) := by
      rw [whole, Purpose.statement?]
    rw [State.settle_operator rfl completed]
    simp [State.push, State.goto, withLead, extend, Statement.allNodes, Statement.allNotes,
      Statement.node, Statement.notes]

private theorem run_writeStatement {state : State} (start : state.stage = .start) (lead : Lead)
    (word : Terminal .writeWord) (left : Terminal .leftParen) (arguments : Arguments)
    (right : Terminal .rightParen) :
    state.run (Statement.write lead word left arguments right).tokens =
      some (extend state [.write lead word left arguments right]) := by
  let begun := (withLead state lead).note (.write word.token.pos.line)
  let pos := word.token.pos
  have plain : (withLead state lead).plain? word.token = some (begun.goto (.writeWord pos)) := by
    simp [State.plain?, begun, pos]
  have opened :
      (begun.goto (.writeWord pos)).accept? left.token = some (begun.goto (.writeOpen pos)) := by
    simp [State.accept?]
  have completed :
      (begun.goto (.writeOpen pos)).run (arguments.tokens ++ [right.token]) =
        some (begun.push (.write arguments.nodes pos)) := by
    cases arguments with
    | none =>
        simp [Arguments.tokens, Arguments.nodes, State.run_cons, State.accept?, State.push,
          State.goto]
    | some chain =>
        have operandAccepted :
            (begun.goto (.writeOpen pos)).accept? chain.first.leading.token =
              some (begun.goto (.operator (.argument [] pos) none chain.first.leading.node)) := by
          rw [State.accept?, State.stage_goto]
          have noParen : chain.first.leading.token.kind ≠ .rightParen := by
            cases chain.first.leading <;> simp [Operand.token]
          simp only [noParen, if_false]
          exact operand?_token _ _ _ _ _
        obtain ⟨compared, joined, reached, whole⟩ :=
          run_following begun (.argument [] pos) chain.first
        rw [Arguments.tokens, Chain.tokens, Expression.tokens_eq, List.cons_append,
          List.cons_append, List.append_assoc, State.run_cons_of_accept? operandAccepted,
          State.run_append_of_run reached, run_argumentLinks, whole]
        rfl
  have tokens :
      (Statement.write lead word left arguments right).tokens =
        lead.tokens ++ word.token :: left.token :: (arguments.tokens ++ [right.token]) := by
    simp [Statement.tokens]
  rw [tokens, run_lead start lead (by simp) (by simp), plain, Option.bind_some,
    State.run_cons_of_accept? opened, completed]
  simp [begun, pos, State.push, State.note, withLead, extend, Statement.allNodes,
    Statement.allNotes, Statement.node, Statement.notes]

private theorem run_named {state begun : State} {tokens : List Token} {purpose : Purpose}
    {value : Expression} {statement : Node} {statements : List Statement}
    (begins : state.run tokens = some (begun.goto (.operand purpose none none)))
    (completed : purpose.statement? value.node = some statement)
    (whole : begun.push statement = extend state statements) :
    ∃ reached,
      state.run (tokens ++ value.tokens) = some reached ∧
      reached.settle = extend state statements := by
  obtain ⟨reached, run, settled⟩ := run_value begun completed
  exact ⟨reached, by rw [State.run_append_of_run begins, run], settled.trans whole⟩

private theorem run_branchHead {state : State} (start : state.stage = .start) (lead : Lead)
    (word : Terminal .ifWord) (arrow : Terminal .arrow) (condition : Expression)
    (doubleArrow : Terminal .doubleArrow) (left : Terminal .leftBrace) :
    state.run (lead.tokens ++ word.token :: arrow.token :: condition.tokens ++
        [doubleArrow.token, left.token]) =
      some (((withLead state lead).note (.branch word.token.pos.line)).enter condition.node
        word.token.pos left.token.pos) := by
  let begun := (withLead state lead).note (.branch word.token.pos.line)
  let pos := word.token.pos
  have plain : (withLead state lead).plain? word.token = some (begun.goto (.branchWord pos)) := by
    simp [State.plain?, begun, pos]
  have arrowAccepted :
      (begun.goto (.branchWord pos)).accept? arrow.token =
        some (begun.goto (.operand (.condition pos) none none)) := by
    simp [State.accept?]
  obtain ⟨compared, joined, reached, whole⟩ := run_expression begun (.condition pos) condition
  have doubleAccepted :
      (begun.goto (.operator (.condition pos) compared joined)).accept? doubleArrow.token =
        some (begun.goto (.branchArrow condition.node pos)) := by
    simp [State.accept?, State.operator?, whole]
  have leftAccepted :
      (begun.goto (.branchArrow condition.node pos)).accept? left.token =
        some (begun.enter condition.node pos left.token.pos) := by
    simp [State.accept?, State.enter, State.goto]
  rw [List.append_assoc, List.cons_append, List.cons_append,
    run_lead start lead (by simp) (by simp), plain, Option.bind_some,
    State.run_cons_of_accept? arrowAccepted, State.run_append_of_run reached,
    State.run_cons_of_accept? doubleAccepted, State.run_cons_of_accept? leftAccepted,
    State.run_nil]

mutual

/-- The tokens of a statement extend a state between statements by it. -/
theorem run_statement (statement : Statement) {state : State} (start : state.stage = .start) :
    ∃ reached,
      state.run statement.tokens = some reached ∧ reached.settle = extend state [statement] := by
  match statement with
  | .comment text =>
      refine ⟨state.push (.comment text.token.text text.token.pos), ?_, ?_⟩
      · simp [Statement.tokens, State.run_cons, State.accept?, start, State.start?]
      · rw [State.settle_of_start rfl]
        rfl
  | .reassignment name mark value named =>
      let begun := (state.note (.named name.token.text name.token.pos.line)).note
        (.reassigned name.token.text)
      let purpose := Purpose.assignment name.token.text name.token.pos
      obtain ⟨compared, joined, reached, whole⟩ := run_following begun purpose value
      refine ⟨begun.goto (.operator purpose compared joined), ?_, ?_⟩
      · -- The first operand is what tells the new value from a type.
        rw [← reached]
        cases leading : value.leading with
        | string terminal => simp [leading, Operand.isName] at named
        | name terminal =>
            simp [Statement.tokens, Expression.tokens_eq, leading, Operand.token, Operand.node,
              State.run_cons, State.accept?, start, State.start?, State.named?, State.typed?,
              State.operand?, Waiting.complete, begun, purpose, State.note, State.goto]
      · have completed :
            purpose.statement? (compared.complete compareOperator joined) =
              some (.assignment name.token.text value.node name.token.pos) := by
          rw [whole, Purpose.statement?]
        rw [State.settle_operator rfl completed]
        simp [begun, State.push, State.goto, State.note, extend, Statement.allNodes,
          Statement.allNotes, Statement.node, Statement.notes]
  | .declaration name mark left type right arrow value =>
      have begins :
          state.run [name.token, mark.token, left.token, type.token, right.token, arrow.token] =
            some (((state.note (.named name.token.text name.token.pos.line)).note
              (.declared name.token.text)).goto
                (.operand (.declaration name.token.text type.token.text name.token.pos)
                  none none)) := by
        simp [State.run_cons, State.accept?, start, State.start?, State.named?, State.typed?,
          State.note, State.goto]
      exact run_named begins rfl rfl
  | .assignment name arrow value =>
      have begins :
          state.run [name.token, arrow.token] =
            some (((state.note (.named name.token.text name.token.pos.line)).note
              (.assigned name.token.text)).goto
                (.operand (.assignment name.token.text name.token.pos) none none)) := by
        simp [State.run_cons, State.accept?, start, State.start?, State.named?, State.note,
          State.goto]
      exact run_named begins rfl rfl
  | .branch lead word arrow condition doubleArrow left body right =>
      let begun := (withLead state lead).note (.branch word.token.pos.line)
      let entered := begun.enter condition.node word.token.pos left.token.pos
      obtain ⟨inside, run, settled⟩ := run_statements body entered rfl
      have closed :
          inside.accept? right.token =
            some (extend state
              [.branch lead word arrow condition doubleArrow left body right]) := by
        rw [← inside.accept?_settle (by simp) (by simp), settled,
          State.settle_of_start rfl]
        simp [State.accept?, extend, State.start?, State.leave?, entered, State.enter, begun,
          State.note, withLead, Frame.node, Statement.allNodes, Statement.allNotes,
          Statement.node, Statement.notes]
      refine ⟨extend state [.branch lead word arrow condition doubleArrow left body right],
        ?_, State.settle_of_start rfl⟩
      have tokens :
          (Statement.branch lead word arrow condition doubleArrow left body right).tokens =
            (lead.tokens ++ word.token :: arrow.token :: condition.tokens ++
              [doubleArrow.token, left.token]) ++
                (Statement.allTokens body ++ [right.token]) := by
        simp [Statement.tokens]
      rw [tokens, State.run_append_of_run (run_branchHead start _ _ _ _ _ _),
        State.run_append_of_run run, State.run_cons_of_accept? closed, State.run_nil]
  | .write lead word left arguments right =>
      exact ⟨_, run_writeStatement start lead word left arguments right,
        State.settle_of_start rfl⟩
  | .expression lead value led =>
      exact run_expressionStatement start lead value led

private theorem run_statements (statements : List Statement) (state : State)
    (start : state.settle.stage = .start) :
    ∃ reached,
      state.run (Statement.allTokens statements) = some reached ∧
      reached.settle = extend state.settle statements := by
  match statements with
  | [] =>
      exact ⟨state, rfl, (extend_nil start).symm⟩
  | statement :: rest =>
      obtain ⟨next, run, settled⟩ := run_statement statement start
      have between : next.settle.stage = .start := by
        rw [settled]
        rfl
      obtain ⟨reached, runRest, settledRest⟩ := run_statements rest next between
      refine ⟨reached, ?_, ?_⟩
      · -- What is still to be settled before the statement does not matter to its first token.
        obtain ⟨token, others, shape, starts⟩ := exists_first statement
        simp only [List.mem_cons, List.not_mem_nil, or_false, not_or] at starts
        rw [shape, state.run_settle starts.1 starts.2.1, ← shape] at run
        rw [Statement.allTokens, State.run_append_of_run run, runRest]
      · rw [settledRest, settled, ← extend_cons]

end

/-- The reader accepts the tokens of every derivation, with its program and notes. -/
theorem run_derivation (derivation : Derivation) :
    ∃ reached,
      ({} : State).run derivation.tokens = some reached ∧
      reached.program? = some derivation.program ∧
      reached.notes = (Statement.allNotes derivation).reverse := by
  obtain ⟨reached, run, settled⟩ := run_statements derivation {} rfl
  have fresh : ({} : State).settle = {} := rfl
  rw [fresh] at settled
  have frames : reached.frames = [] := by
    rw [← reached.frames_settle, settled]
    rfl
  refine ⟨reached, run, ?_, ?_⟩
  · simp [State.program?, settled, frames, extend, Derivation.program]
  · rw [← reached.notes_settle, settled]
    simp [extend]

/-- Every derivation is read as its program. -/
theorem outcome?_derivation (derivation : Derivation) :
    ({} : State).outcome? derivation.tokens = some derivation.program := by
  obtain ⟨reached, run, program, -⟩ := run_derivation derivation
  rw [State.outcome?, run, Option.bind_some, program]

end Grammar

end TriforceScript
