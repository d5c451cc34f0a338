import TriforceScript.Tree.Reader

/-!
# Runs of the reader

A run takes the reader from one state to another along accepted tokens.  Reading
is a run to the end of the tokens, or a run to the first token that is blocked.

An expression that may end a statement is settled only when the next token comes.
A token that is no operator cannot tell whether it has been settled before.
-/

namespace TriforceScript

/-- Whether tokens do not continue an expression in front of them. -/
def Token.Stops (tokens : List Token) : Prop :=
  ∀ token ∈ tokens.head?, token.kind ≠ .arrow ∧ token.kind ≠ .equalsEquals

namespace Reader

namespace State

/-! ## Stages -/

@[simp]
theorem stage_goto (state : State) (stage : Stage) : (state.goto stage).stage = stage := rfl

@[simp]
theorem goto_goto (state : State) (first second : Stage) :
    (state.goto first).goto second = state.goto second := rfl

@[simp]
theorem stage_push (state : State) (statement : Node) :
    (state.push statement).stage = .start := rfl

theorem goto_self {state : State} {stage : Stage} (reached : state.stage = stage) :
    state.goto stage = state := by
  subst reached
  rfl

theorem settle_of_start {state : State} (start : state.stage = .start) :
    state.settle = state := by
  simp [settle, start]

theorem settle_operator {state : State} {purpose : Purpose} {compared : Waiting}
    {joined statement : Node} (stage : state.stage = .operator purpose compared joined)
    (completed :
      purpose.statement? (compared.complete compareOperator joined) = some statement) :
    state.settle = state.push statement := by
  simp [settle, stage, completed]

/-- Settling completes the statement that a value makes, or does nothing. -/
theorem settle_cases (state : State) :
    state.settle = state ∨
      ∃ (purpose : Purpose) (compared : Waiting) (joined statement : Node),
        state.stage = .operator purpose compared joined ∧
        purpose.statement? (compared.complete compareOperator joined) = some statement ∧
        state.settle = state.push statement := by
  unfold settle
  split
  · rename_i purpose compared joined stage
    split
    · rename_i statement completed
      exact .inr ⟨purpose, compared, joined, statement, stage, completed, rfl⟩
    · exact .inl rfl
  · exact .inl rfl

theorem settle_eq_or (state : State) :
    state.settle = state ∨ ∃ statement, state.settle = state.push statement := by
  rcases state.settle_cases with same | ⟨_, _, _, statement, -, -, pushed⟩
  · exact .inl same
  · exact .inr ⟨statement, pushed⟩

@[simp]
theorem frames_settle (state : State) : state.settle.frames = state.frames := by
  rcases state.settle_eq_or with same | ⟨statement, pushed⟩
  · rw [same]
  · rw [pushed]
    rfl

@[simp]
theorem notes_settle (state : State) : state.settle.notes = state.notes := by
  rcases state.settle_eq_or with same | ⟨statement, pushed⟩
  · rw [same]
  · rw [pushed]
    rfl

@[simp]
theorem settle_settle (state : State) : state.settle.settle = state.settle := by
  rcases state.settle_eq_or with same | ⟨statement, pushed⟩
  · rw [same, same]
  · rw [pushed]
    exact settle_of_start rfl

/-- Tokens may end between statements, outside of all blocks. -/
theorem program?_eq_some_iff {state : State} {program : Program} :
    state.program? = some program ↔
      state.settle.stage = .start ∧ state.frames = [] ∧
        state.settle.statements.reverse = program := by
  unfold program?
  split
  · rename_i start noFrames
    simp [start, noFrames]
  · rename_i other
    constructor
    · intro impossible
      cases impossible
    · rintro ⟨start, noFrames, -⟩
      exact (other start noFrames).elim

/-! ## Single tokens -/

theorem accept?_start {state : State} (start : state.stage = .start) (token : Token) :
    state.accept? token = state.start? token := by
  rw [accept?, start]

theorem accept?_name (state : State) (name token : Token) :
    (state.goto (.name name)).accept? token =
      (state.goto (.name name)).named? name token := rfl

theorem accept?_typeMark (state : State) (name token : Token) :
    (state.goto (.typeMark name)).accept? token =
      (state.goto (.typeMark name)).typed? name token := rfl

theorem accept?_operator (state : State) (purpose : Purpose) (compared : Waiting)
    (joined : Node) (token : Token) :
    (state.goto (.operator purpose compared joined)).accept? token =
      (state.goto (.operator purpose compared joined)).operator? purpose compared joined
        token := rfl

/-- A token that continues no expression is accepted as it is after settling. -/
theorem accept?_settle (state : State) {token : Token} (noArrow : token.kind ≠ .arrow)
    (noEquals : token.kind ≠ .equalsEquals) :
    state.settle.accept? token = state.accept? token := by
  unfold settle
  split
  · rename_i purpose compared joined stage
    split
    · rename_i statement completed
      rw [accept?, stage_push]
      rw [accept?, stage]
      cases purpose <;> simp [Purpose.statement?] at completed <;>
        simp [operator?, Purpose.statement?, completed]
    · rfl
  · rfl

/-! ## Runs -/

/-- The state after tokens, if all of them are accepted. -/
def run (state : State) : List Token → Option State
  | [] => some state
  | token :: rest => (state.accept? token).bind fun next => next.run rest

@[simp]
theorem run_nil (state : State) : state.run [] = some state := rfl

theorem run_cons (state : State) (token : Token) (rest : List Token) :
    state.run (token :: rest) = (state.accept? token).bind fun next => next.run rest := rfl

theorem run_cons_of_accept? {state next : State} {token : Token}
    (accepted : state.accept? token = some next) (rest : List Token) :
    state.run (token :: rest) = next.run rest := by
  rw [run_cons, accepted, Option.bind_some]

theorem run_append (state : State) (first second : List Token) :
    state.run (first ++ second) = (state.run first).bind fun next => next.run second := by
  induction first generalizing state with
  | nil =>
      rfl
  | cons token rest inductionHypothesis =>
      cases accepted : state.accept? token with
      | none => simp [run_cons, accepted]
      | some next => simpa [run_cons, accepted] using inductionHypothesis next

theorem run_append_of_run {state next : State} {first : List Token}
    (reached : state.run first = some next) (second : List Token) :
    state.run (first ++ second) = next.run second := by
  rw [run_append, reached, Option.bind_some]

theorem run_settle (state : State) {token : Token} (noArrow : token.kind ≠ .arrow)
    (noEquals : token.kind ≠ .equalsEquals) (rest : List Token) :
    state.settle.run (token :: rest) = state.run (token :: rest) := by
  rw [run_cons, run_cons, state.accept?_settle noArrow noEquals]

theorem program?_settle (state : State) : state.settle.program? = state.program? := by
  rw [program?, program?, settle_settle, frames_settle]

/-- Where a run comes to no end, some token of it is blocked. -/
theorem exists_blocked {state : State} {tokens : List Token} (stuck : state.run tokens = none) :
    ∃ before token behind reached,
      tokens = before ++ token :: behind ∧ state.run before = some reached ∧
        reached.accept? token = none := by
  induction tokens generalizing state with
  | nil =>
      simp at stuck
  | cons token rest inductionHypothesis =>
      cases accepted : state.accept? token with
      | none => exact ⟨[], token, rest, state, rfl, rfl, accepted⟩
      | some next =>
          rw [run_cons_of_accept? accepted] at stuck
          obtain ⟨before, blocked, behind, reached, shape, run, refused⟩ :=
            inductionHypothesis stuck
          refine ⟨token :: before, blocked, behind, reached, ?_, ?_, refused⟩
          · rw [shape, List.cons_append]
          · rw [run_cons_of_accept? accepted, run]

/-! ## Reading -/

/-- A run to the end of the tokens is finished there. -/
theorem read_of_run {state reached : State} {tokens : List Token} (endToken : Token)
    (run : state.run tokens = some reached) :
    state.read endToken tokens = reached.finish endToken := by
  induction tokens generalizing state with
  | nil =>
      cases run
      rfl
  | cons token rest inductionHypothesis =>
      rw [run_cons, Option.bind_eq_some_iff] at run
      obtain ⟨next, accepted, run⟩ := run
      rw [read, accepted]
      exact inductionHypothesis run

/-- A run to a blocked token is rejected there, whatever follows. -/
theorem read_of_blocked {state reached : State} {before : List Token} {token : Token}
    (endToken : Token) (behind : List Token) (run : state.run before = some reached)
    (blocked : reached.accept? token = none) :
    state.read endToken (before ++ token :: behind) = reached.reject token := by
  induction before generalizing state with
  | nil =>
      cases run
      rw [List.nil_append, read, blocked]
  | cons first rest inductionHypothesis =>
      rw [run_cons, Option.bind_eq_some_iff] at run
      obtain ⟨next, accepted, run⟩ := run
      rw [List.cons_append, read, accepted]
      exact inductionHypothesis run

/-- The program of tokens that are read from a state, if they are a program. -/
def outcome? (state : State) (tokens : List Token) : Option Program :=
  (state.run tokens).bind program?

theorem outcome?_nil (state : State) : state.outcome? [] = state.program? := rfl

theorem outcome?_cons (state : State) (token : Token) (rest : List Token) :
    state.outcome? (token :: rest) =
      (state.accept? token).bind fun next => next.outcome? rest := by
  rw [outcome?, run_cons, Option.bind_assoc]
  rfl

theorem outcome?_append_of_run {state next : State} {first : List Token}
    (reached : state.run first = some next) (second : List Token) :
    state.outcome? (first ++ second) = next.outcome? second := by
  rw [outcome?, run_append_of_run reached]
  rfl

theorem outcome?_settle (state : State) {tokens : List Token} (stops : Token.Stops tokens) :
    state.settle.outcome? tokens = state.outcome? tokens := by
  cases tokens with
  | nil =>
      exact state.program?_settle
  | cons token rest =>
      obtain ⟨noArrow, noEquals⟩ := stops token rfl
      rw [outcome?, outcome?, state.run_settle noArrow noEquals]

private theorem result_finish (state : State) (endToken : Token) (program : Program) :
    (state.finish endToken).result = .ok program ↔ state.program? = some program := by
  unfold finish
  cases ended : state.program? with
  | none => simp [reject]
  | some found => simp

/-- Reading gives a program exactly where the outcome is one. -/
theorem result_read (state : State) (endToken : Token) (tokens : List Token)
    (program : Program) :
    (state.read endToken tokens).result = .ok program ↔
      state.outcome? tokens = some program := by
  cases run : state.run tokens with
  | none =>
      obtain ⟨before, token, behind, reached, shape, run', blocked⟩ := exists_blocked run
      rw [outcome?, run, shape, read_of_blocked endToken behind run' blocked]
      simp [reject]
  | some reached =>
      rw [outcome?, run, read_of_run endToken run]
      exact reached.result_finish endToken program

end State

end Reader

/-! ## Tokens up to the end -/

section UpToEnd

variable {tokens : List Token} (proper : ∀ token ∈ tokens, token.kind ≠ .eof)

include proper

theorem find?_end_eq_none : tokens.find? (·.kind == .eof) = none := by
  rw [List.find?_eq_none]
  intro token member
  simpa using proper token member

theorem takeWhile_append_of_proper (others : List Token) :
    (tokens ++ others).takeWhile (·.kind != .eof) =
      tokens ++ others.takeWhile (·.kind != .eof) := by
  apply List.takeWhile_append_of_pos
  intro token member
  simpa using proper token member

/-- Tokens and a token for their end are read up to that token. -/
theorem readTokens_append_end {endToken : Token} (ends : endToken.kind = .eof) :
    readTokens (tokens ++ [endToken]) = Reader.State.read endToken {} tokens := by
  simp [readTokens, takeWhile_append_of_proper proper, find?_end_eq_none proper, ends]

theorem readTokens_of_proper :
    readTokens tokens = Reader.State.read ⟨.eof, [], Token.lastPos tokens⟩ {} tokens := by
  have taken := takeWhile_append_of_proper proper []
  rw [List.append_nil, List.takeWhile_nil, List.append_nil] at taken
  simp [readTokens, taken, find?_end_eq_none proper]

end UpToEnd

/-- The program of any tokens is the outcome of those before the first token for
the end. -/
theorem result_readTokens (tokens : List Token) (program : Program) :
    (readTokens tokens).result = .ok program ↔
      ({} : Reader.State).outcome? (tokens.takeWhile (·.kind != .eof)) = some program :=
  Reader.State.result_read _ _ _ _

end TriforceScript
