import TriforceScript.Proofs.Reader.Run

/-!
# Viability

Every state of the reader can be completed to a program, so that tokens are accepted
exactly as long as some program goes on with them.  A fault is therefore reported at
the first token that rules every program out, and it is incomplete exactly if there is
no such token.
-/

namespace TriforceScript

namespace Reader

/-! ## Completing states -/

/-- Some token of a category. -/
def anyToken (kind : Token.Kind) : Token :=
  ⟨kind, [], .origin⟩

/-- Tokens behind a value that complete what it is read for. -/
def Purpose.completion : Purpose → List Token
  | .declaration _ _ _ => []
  | .assignment _ _ => []
  | .statement => []
  | .condition _ => [anyToken .doubleArrow, anyToken .leftBrace, anyToken .rightBrace]
  | .argument _ _ => [anyToken .rightParen]

/-- Tokens that complete the statement under way. -/
def Stage.completion : Stage → List Token
  | .start => []
  | .name _ => [anyToken .string]
  | .typeMark _ => [anyToken .identifier]
  | .typeOpen _ =>
      [anyToken .identifier, anyToken .typeClose, anyToken .arrow, anyToken .string]
  | .typeName _ _ => [anyToken .typeClose, anyToken .arrow, anyToken .string]
  | .typeClose _ _ => [anyToken .arrow, anyToken .string]
  | .branchWord _ =>
      [anyToken .arrow, anyToken .string, anyToken .doubleArrow, anyToken .leftBrace,
        anyToken .rightBrace]
  | .branchArrow _ _ => [anyToken .leftBrace, anyToken .rightBrace]
  | .writeWord _ => [anyToken .leftParen, anyToken .rightParen]
  | .writeOpen _ => [anyToken .rightParen]
  | .operand purpose _ _ => anyToken .string :: purpose.completion
  | .operator purpose _ _ => purpose.completion

namespace State

/-- Tokens that complete the statement under way and close all blocks. -/
def completion (state : State) : List Token :=
  state.stage.completion ++ List.replicate state.frames.length (anyToken .rightBrace)

private theorem proper_completion (state : State) :
    ∀ token ∈ state.completion, token.kind ≠ .eof := by
  have properPurpose (purpose : Purpose) :
      ∀ token ∈ purpose.completion, token.kind ≠ .eof := by
    cases purpose <;> simp [Purpose.completion, anyToken]
  have properStage : ∀ token ∈ state.stage.completion, token.kind ≠ .eof := by
    cases state.stage with
    | operand purpose compared joined =>
        simpa [Stage.completion, anyToken] using properPurpose purpose
    | operator purpose compared joined =>
        exact properPurpose purpose
    | _ => simp [Stage.completion, anyToken]
  intro token member
  rcases List.mem_append.mp member with inStage | inBraces
  · exact properStage token inStage
  · rw [List.eq_of_mem_replicate inBraces]
    simp [anyToken]

/-- Whether a state is between statements, once it is settled, with the blocks `frames`
open. -/
def Between (frames : List Frame) (state : State) : Prop :=
  state.settle.stage = .start ∧ state.frames = frames

private theorem between_push (state : State) (statement : Node) :
    (state.push statement).Between state.frames :=
  ⟨by rw [settle_of_start rfl]; rfl, rfl⟩

private theorem exists_run_purposeCompletion (state : State) (purpose : Purpose)
    (compared : Waiting) (joined : Node) :
    ∃ reached,
      (state.goto (.operator purpose compared joined)).run purpose.completion = some reached ∧
      reached.Between state.frames := by
  have settles {statement : Node}
      (completed :
        purpose.statement? (compared.complete compareOperator joined) = some statement) :
      (state.goto (.operator purpose compared joined)).Between state.frames := by
    refine ⟨?_, rfl⟩
    rw [settle_operator rfl completed]
    rfl
  cases purpose with
  | declaration name type pos => exact ⟨_, rfl, settles rfl⟩
  | assignment name pos => exact ⟨_, rfl, settles rfl⟩
  | statement => exact ⟨_, rfl, settles rfl⟩
  | condition pos =>
      let value := compared.complete compareOperator joined
      let closed : State :=
        state.push (.branch value (.braced [] Position.origin) .missing pos)
      exact ⟨closed, rfl, between_push _ _⟩
  | argument others pos => exact ⟨_, rfl, between_push _ _⟩

private theorem exists_run_stageCompletion (state : State) (stage : Stage) :
    ∃ reached,
      (state.goto stage).run stage.completion = some reached ∧
      reached.Between state.frames := by
  cases stage with
  | start => exact ⟨_, rfl, by rw [settle_of_start rfl]; rfl, rfl⟩
  | name name =>
      exact exists_run_purposeCompletion (state.note (.discarded name.text)) .statement none
        (.string [] .origin)
  | typeMark name =>
      exact exists_run_purposeCompletion (state.note (.reassigned name.text))
        (.assignment name.text name.pos) none (.identifier [] .origin)
  | typeOpen name =>
      exact exists_run_purposeCompletion state (.declaration name.text [] name.pos) none
        (.string [] .origin)
  | typeName name type | typeClose name type =>
      exact exists_run_purposeCompletion state (.declaration name.text type name.pos) none
        (.string [] .origin)
  | branchWord pos =>
      exact exists_run_purposeCompletion state (.condition pos) none (.string [] .origin)
  | branchArrow condition pos =>
      exact ⟨state.push (.branch condition (.braced [] Position.origin) .missing pos), rfl,
        between_push _ _⟩
  | writeWord pos | writeOpen pos =>
      exact ⟨state.push (.write [] pos), rfl, between_push _ _⟩
  | operand purpose compared joined =>
      exact exists_run_purposeCompletion state purpose compared
        (joined.complete joinOperator (.string [] .origin))
  | operator purpose compared joined =>
      exact exists_run_purposeCompletion state purpose compared joined

/-- Between statements, closing braces lead out of all blocks. -/
private theorem exists_run_braces {state : State} {frames : List Frame}
    (between : state.Between frames) :
    ∃ reached,
      state.run (List.replicate frames.length (anyToken .rightBrace)) = some reached ∧
      reached.Between [] := by
  induction frames generalizing state with
  | nil =>
      exact ⟨state, rfl, between⟩
  | cons frame rest inductionHypothesis =>
      let left : State :=
        { state.settle with
          stage := .start
          statements := frame.node state.settle.statements :: frame.before
          frames := rest }
      have accepted : state.accept? (anyToken .rightBrace) = some left := by
        rw [← state.accept?_settle (by simp [anyToken]) (by simp [anyToken]),
          accept?_start between.1]
        simp [start?, anyToken, leave?, between.2, left]
      have betweenLeft : left.Between rest :=
        ⟨by rw [settle_of_start rfl], rfl⟩
      obtain ⟨reached, run, out⟩ := inductionHypothesis betweenLeft
      refine ⟨reached, ?_, out⟩
      rw [List.length_cons, List.replicate_succ, run_cons_of_accept? accepted, run]

/-- Every state can be completed to a program. -/
theorem exists_outcome_completion (state : State) :
    ∃ program, state.outcome? state.completion = some program := by
  obtain ⟨next, runStage, between⟩ := state.exists_run_stageCompletion state.stage
  rw [goto_self rfl] at runStage
  obtain ⟨reached, runBraces, out⟩ := exists_run_braces between
  refine ⟨reached.settle.statements.reverse, ?_⟩
  rw [completion, outcome?_append_of_run runStage, outcome?, runBraces, Option.bind_some,
    program?_eq_some_iff]
  exact ⟨out.1, out.2, rfl⟩

end State

end Reader

/-! ## Faults -/

/-- Whether tokens are read as a program. -/
def Readable (tokens : List Token) : Prop :=
  ∃ program, (readTokens tokens).result = .ok program

/-- Whether tokens are rejected as incomplete, and more tokens make a program of them. -/
def Unfinished (tokens : List Token) : Prop :=
  ∃ fault,
    (readTokens tokens).result = .error fault ∧
    fault.incomplete = true ∧
    ∃ more, (∀ token ∈ more, token.kind ≠ .eof) ∧ Readable (tokens ++ more)

/-- Whether tokens are rejected at one of them that rules every program out, while the
tokens before it do not. -/
def Blocked (tokens : List Token) : Prop :=
  ∃ (fault : ParseFault) (index : Nat) (bound : index < tokens.length),
    (readTokens tokens).result = .error fault ∧
    fault.incomplete = false ∧
    fault.found = tokens[index] ∧
    (∀ more, ¬ Readable (tokens.take (index + 1) ++ more)) ∧
    ∃ more, (∀ token ∈ more, token.kind ≠ .eof) ∧ Readable (tokens.take index ++ more)

section Faults

open Reader

variable {tokens : List Token} (proper : ∀ token ∈ tokens, token.kind ≠ .eof)

include proper

theorem readable_append_iff (more : List Token) :
    Readable (tokens ++ more) ↔
      ∃ program,
        ({} : State).outcome? (tokens ++ more.takeWhile (·.kind != .eof)) = some program := by
  rw [← takeWhile_append_of_proper proper]
  exact exists_congr fun program => result_readTokens _ _

/-- Tokens that are accepted are the start of some program. -/
theorem exists_readable_append {reached : State} (run : ({} : State).run tokens = some reached) :
    ∃ more, (∀ token ∈ more, token.kind ≠ .eof) ∧ Readable (tokens ++ more) := by
  obtain ⟨program, outcome⟩ := reached.exists_outcome_completion
  have properMore := reached.proper_completion
  refine ⟨reached.completion, properMore, (readable_append_iff proper _).mpr ⟨program, ?_⟩⟩
  have taken := takeWhile_append_of_proper properMore []
  rw [List.append_nil, List.takeWhile_nil, List.append_nil] at taken
  rw [taken, State.outcome?_append_of_run run, outcome]

/-- Tokens that are not accepted are the start of no program. -/
theorem not_readable_append (stuck : ({} : State).run tokens = none) (more : List Token) :
    ¬ Readable (tokens ++ more) := by
  rw [readable_append_iff proper]
  rintro ⟨program, outcome⟩
  rw [State.outcome?, State.run_append, stuck] at outcome
  cases outcome

private theorem unfinished_of_run {reached : State} (run : ({} : State).run tokens = some reached)
    (underWay : reached.program? = none) : Unfinished tokens := by
  let endToken : Token := ⟨.eof, [], Token.lastPos tokens⟩
  refine ⟨⟨reached.expected endToken, endToken⟩, ?_, rfl, exists_readable_append proper run⟩
  rw [readTokens_of_proper proper, State.read_of_run endToken run, State.finish, underWay]
  rfl

private theorem blocked_of_stuck (stuck : ({} : State).run tokens = none) : Blocked tokens := by
  obtain ⟨before, token, behind, reached, rfl, run, refused⟩ := State.exists_blocked stuck
  have properBefore : ∀ token ∈ before, token.kind ≠ .eof := by
    intro other member
    exact proper other (List.mem_append_left _ member)
  have properToken : token.kind ≠ .eof :=
    proper token (List.mem_append_right _ (List.Mem.head _))
  have properStart : ∀ other ∈ before ++ [token], other.kind ≠ .eof := by
    intro other member
    rcases List.mem_append.mp member with inBefore | isToken
    · exact properBefore other inBefore
    · rw [List.mem_singleton.mp isToken]
      exact properToken
  have stuckStart : ({} : State).run (before ++ [token]) = none := by
    rw [State.run_append_of_run run, State.run_cons, refused]
    rfl
  refine ⟨⟨reached.expected token, token⟩, before.length, by simp, ?_, ?_, ?_, ?_, ?_⟩
  · rw [readTokens_of_proper proper, State.read_of_blocked _ behind run refused]
    rfl
  · simpa [ParseFault.incomplete] using properToken
  · simp
  · have taken : (before ++ token :: behind).take (before.length + 1) = before ++ [token] := by
      simp [List.take_length_add_append]
    rw [taken]
    exact not_readable_append properStart stuckStart
  · rw [List.take_left']
    · exact exists_readable_append properBefore run
    · rfl

end Faults

/-- One of three statements holds, and the other two do not. -/
def ExactlyOne (first second third : Prop) : Prop :=
  (first ∧ ¬ second ∧ ¬ third) ∨ (¬ first ∧ second ∧ ¬ third) ∨ (¬ first ∧ ¬ second ∧ third)

private theorem not_readable_of_unfinished {tokens : List Token} (unfinished : Unfinished tokens) :
    ¬ Readable tokens := by
  obtain ⟨fault, failed, -⟩ := unfinished
  rintro ⟨program, read⟩
  rw [failed] at read
  cases read

private theorem not_readable_of_blocked {tokens : List Token} (blocked : Blocked tokens) :
    ¬ Readable tokens := by
  obtain ⟨fault, index, bound, failed, -⟩ := blocked
  rintro ⟨program, read⟩
  rw [failed] at read
  cases read

private theorem not_blocked_of_unfinished {tokens : List Token} (unfinished : Unfinished tokens) :
    ¬ Blocked tokens := by
  obtain ⟨fault, failed, incomplete, -⟩ := unfinished
  rintro ⟨fault', index, bound, failed', complete, -⟩
  rw [failed] at failed'
  cases failed'
  rw [incomplete] at complete
  cases complete

/-- Tokens are a program, or they are incomplete and can be made one, or they are
rejected at the first token that no program can go on with. -/
theorem readable_or_unfinished_or_blocked {tokens : List Token}
    (proper : ∀ token ∈ tokens, token.kind ≠ .eof) :
    ExactlyOne (Readable tokens) (Unfinished tokens) (Blocked tokens) := by
  cases run : ({} : Reader.State).run tokens with
  | none =>
      have blocked := blocked_of_stuck proper run
      exact Or.inr (Or.inr ⟨not_readable_of_blocked blocked,
        fun unfinished => not_blocked_of_unfinished unfinished blocked, blocked⟩)
  | some reached =>
      cases ended : reached.program? with
      | none =>
          have unfinished := unfinished_of_run proper run ended
          exact Or.inr (Or.inl ⟨not_readable_of_unfinished unfinished, unfinished,
            not_blocked_of_unfinished unfinished⟩)
      | some program =>
          have readable : Readable tokens := by
            refine ⟨program, ?_⟩
            rw [readTokens_of_proper proper, Reader.State.result_read, Reader.State.outcome?, run,
              Option.bind_some, ended]
          exact Or.inl ⟨readable, fun unfinished => not_readable_of_unfinished unfinished readable,
            fun blocked => not_readable_of_blocked blocked readable⟩

/-- A block that is closed behind a name. -/
def closedBehindName : List Token :=
  [⟨.ifWord, utf8 "if", ⟨1, 3⟩⟩, ⟨.arrow, utf8 "->", ⟨1, 6⟩⟩, ⟨.identifier, utf8 "x", ⟨1, 8⟩⟩,
    ⟨.doubleArrow, utf8 "=>", ⟨1, 11⟩⟩, ⟨.leftBrace, utf8 "\x7b", ⟨1, 13⟩⟩,
    ⟨.identifier, utf8 "y", ⟨1, 15⟩⟩, ⟨.rightBrace, utf8 "\x7d", ⟨1, 17⟩⟩]

theorem blocked_closedBehindName :
    (∀ token ∈ closedBehindName, token.kind ≠ .eof) ∧ Blocked closedBehindName := by
  have proper : ∀ token ∈ closedBehindName, token.kind ≠ .eof := by
    decide
  have failed :
      (readTokens closedBehindName).result =
        .error ⟨.expression, ⟨.rightBrace, utf8 "\x7d", ⟨1, 17⟩⟩⟩ := rfl
  refine ⟨proper, ?_⟩
  rcases readable_or_unfinished_or_blocked proper with
    ⟨⟨program, read⟩, -⟩ | ⟨-, ⟨fault, failed', incomplete, -⟩, -⟩ | ⟨-, -, blocked⟩
  · rw [failed] at read
    cases read
  · rw [failed] at failed'
    cases failed'
    cases incomplete
  · exact blocked

end TriforceScript
