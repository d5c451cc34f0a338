import TriforceScript.Proofs.Reader.Run
import TriforceScript.Proofs.Tree.Erasure

/-!
# Reading without places

Where tokens stand does not matter to how they are read.  Erasing all places commutes with
every operation of the reader, and so with whole runs.
-/

namespace TriforceScript

/-- A token with its place erased. -/
def Token.erase (token : Token) : Token :=
  { token with pos := .origin }

@[simp]
theorem Token.kind_erase (token : Token) : token.erase.kind = token.kind := rfl

/-- A note with its place erased. -/
def Note.erase : Note → Note
  | .named name _ => .named name 0
  | .branch _ => .branch 0
  | .write _ => .write 0
  | note => note

namespace Reader

/-! ## States -/

def Waiting.erase (waiting : Waiting) : Waiting :=
  waiting.map fun left => (left.1.erase, .origin)

def Purpose.erase : Purpose → Purpose
  | .declaration name type _ => .declaration name type .origin
  | .assignment name _ => .assignment name .origin
  | .statement => .statement
  | .condition _ => .condition .origin
  | .argument others _ => .argument (others.map Node.erase) .origin

def Stage.erase : Stage → Stage
  | .start => .start
  | .name token => .name token.erase
  | .typeMark token => .typeMark token.erase
  | .typeOpen token => .typeOpen token.erase
  | .typeName token type => .typeName token.erase type
  | .typeClose token type => .typeClose token.erase type
  | .branchWord _ => .branchWord .origin
  | .branchArrow condition _ => .branchArrow condition.erase .origin
  | .writeWord _ => .writeWord .origin
  | .writeOpen _ => .writeOpen .origin
  | .operand purpose compared joined =>
      .operand purpose.erase (Waiting.erase compared) (Waiting.erase joined)
  | .operator purpose compared joined =>
      .operator purpose.erase (Waiting.erase compared) joined.erase

def Frame.erase (frame : Frame) : Frame :=
  ⟨frame.before.map Node.erase, frame.condition.erase, .origin, .origin⟩

/-- A state with all its places erased. -/
def State.erase (state : State) : State :=
  ⟨state.stage.erase, state.statements.map Node.erase, state.frames.map Frame.erase,
    state.notes.map Note.erase⟩

private theorem Waiting.complete_erase (operator : Bytes) (right : Node) (waiting : Waiting) :
    Waiting.complete operator right.erase waiting.erase =
      (waiting.complete operator right).erase := by
  cases waiting with
  | none => rfl
  | some left =>
      rw [Waiting.complete, Node.erase]
      rfl

private theorem Purpose.statement?_erase (value : Node) (purpose : Purpose) :
    purpose.erase.statement? value.erase = (purpose.statement? value).map Node.erase := by
  cases purpose with
  | statement => simp [erase, statement?, Node.pos_erase, Node.erase]
  | _ => simp [erase, statement?, Node.erase]

private theorem Frame.node_erase (frame : Frame) (statements : List Node) :
    frame.erase.node (statements.map Node.erase) = (frame.node statements).erase := by
  simp [Frame.node, Frame.erase, Node.erase, Block.erase, Node.eraseAll_eq_map]

namespace State

@[simp]
theorem erase_goto (state : State) (stage : Stage) :
    (state.goto stage).erase = state.erase.goto stage.erase := rfl

@[simp]
theorem erase_push (state : State) (statement : Node) :
    (state.push statement).erase = state.erase.push statement.erase := rfl

private theorem leave?_erase (state : State) : state.erase.leave? = state.leave?.map erase := by
  unfold leave?
  cases frames : state.frames with
  | nil => simp [erase, frames]
  | cons frame others =>
      simp only [erase, frames, List.map_cons, Option.map_some, Frame.node_erase]
      rfl

/-! ## Single tokens -/

private theorem operand?_erase (state : State) (purpose : Purpose) (compared joined : Waiting)
    (token : Token) :
    state.erase.operand? purpose.erase (Waiting.erase compared) (Waiting.erase joined) token.erase =
      (state.operand? purpose compared joined token).map erase := by
  unfold operand?
  rw [Token.kind_erase]
  split
  · rw [Option.map_some, erase_goto, Stage.erase, ← Waiting.complete_erase, Node.erase]
    rfl
  · rw [Option.map_some, erase_goto, Stage.erase, ← Waiting.complete_erase, Node.erase]
    rfl
  · rfl

private theorem plain?_erase (state : State) (token : Token) :
    state.erase.plain? token.erase = (state.plain? token).map erase := by
  unfold plain?
  rw [Token.kind_erase]
  split
  · rfl
  · rfl
  · exact state.operand?_erase .statement none none token

private theorem start?_erase (state : State) (token : Token) :
    state.erase.start? token.erase = (state.start? token).map erase := by
  unfold start?
  rw [Token.kind_erase]
  split
  · rw [Option.map_some, erase_push, Node.erase]
    rfl
  · rfl
  · exact state.leave?_erase
  · exact state.plain?_erase token

private theorem named?_erase (state : State) (name token : Token) :
    state.erase.named? name.erase token.erase = (state.named? name token).map erase := by
  unfold named?
  rw [Token.kind_erase]
  split
  · rfl
  · rfl
  · exact (state.note (.discarded name.text)).plain?_erase token

private theorem typed?_erase (state : State) (name token : Token) :
    state.erase.typed? name.erase token.erase = (state.typed? name token).map erase := by
  unfold typed?
  rw [Token.kind_erase]
  split
  · exact (state.note (.reassigned name.text)).operand?_erase (.assignment name.text name.pos)
      none none token
  · rfl
  · rfl

private theorem operator?_erase (state : State) (purpose : Purpose) (compared : Waiting)
    (joined : Node) (token : Token) :
    state.erase.operator? purpose.erase (Waiting.erase compared) joined.erase token.erase =
      (state.operator? purpose compared joined token).map erase := by
  by_cases isArrow : token.kind = .arrow
  · simp only [operator?, Token.kind_erase, isArrow, Option.map_some, erase_goto, Stage.erase]
    rfl
  by_cases isEquals : token.kind = .equalsEquals
  · simp only [operator?, Token.kind_erase, isEquals, Option.map_some, erase_goto, Stage.erase,
      Waiting.complete_erase]
    rfl
  have started (statement : Node) :
      (state.erase.push statement.erase).start? token.erase =
        ((state.push statement).start? token).map erase :=
    start?_erase (state.push statement) token
  unfold operator?
  rw [Token.kind_erase, Waiting.complete_erase]
  generalize Waiting.complete compareOperator joined compared = value
  cases purpose with
  | condition pos =>
      by_cases isDoubleArrow : token.kind = .doubleArrow
      · simp [isDoubleArrow, Purpose.erase, Stage.erase]
      · simp [isDoubleArrow, Purpose.erase, Purpose.statement?]
  | argument others pos =>
      by_cases isComma : token.kind = .comma
      · simp only [isComma, Purpose.erase, Option.map_some, erase_goto, Stage.erase]
        rfl
      by_cases isRight : token.kind = .rightParen
      · simp [isRight, Purpose.erase, Node.erase, Node.eraseAll_eq_map]
      · simp [isComma, isRight, Purpose.erase, Purpose.statement?]
  | declaration name type pos =>
      have declared := started (.declaration name type value pos)
      rw [Node.erase] at declared
      simpa [Purpose.erase, Purpose.statement?] using declared
  | assignment name pos =>
      have assigned := started (.assignment name value pos)
      rw [Node.erase] at assigned
      simpa [Purpose.erase, Purpose.statement?] using assigned
  | statement =>
      have bare := started (.expression value value.pos)
      rw [Node.erase] at bare
      simpa [Purpose.erase, Purpose.statement?, Node.pos_erase] using bare

/-- Erasing all places commutes with accepting a token. -/
theorem accept?_erase (state : State) (token : Token) :
    state.erase.accept? token.erase = (state.accept? token).map erase := by
  have fixed (kind : Token.Kind) (next : State) :
      (if token.kind = kind then some next.erase else none) =
        (if token.kind = kind then some next else none).map erase := by
    split <;> rfl
  have sameStage : state.erase.stage = state.stage.erase := rfl
  unfold accept?
  rw [sameStage, Token.kind_erase]
  cases state.stage with
  | start => exact state.start?_erase token
  | name name => exact state.named?_erase name token
  | typeMark name => exact state.typed?_erase name token
  | typeOpen name => exact fixed .identifier (state.goto (.typeName name token.text))
  | typeName name type => exact fixed .typeClose (state.goto (.typeClose name type))
  | typeClose name type =>
      exact fixed .arrow
        (state.goto (.operand (.declaration name.text type name.pos) none none))
  | branchWord pos => exact fixed .arrow (state.goto (.operand (.condition pos) none none))
  | branchArrow condition pos => exact fixed .leftBrace (state.enter condition pos token.pos)
  | writeWord pos => exact fixed .leftParen (state.goto (.writeOpen pos))
  | writeOpen pos =>
      by_cases isRight : token.kind = .rightParen
      · simp [Stage.erase, isRight, Node.erase, Node.eraseAll]
      · have argument := state.operand?_erase (.argument [] pos) none none token
        simp only [Stage.erase, isRight, if_false]
        exact argument
  | operand purpose compared joined => exact state.operand?_erase purpose compared joined token
  | operator purpose compared joined => exact state.operator?_erase purpose compared joined token

/-! ## Runs -/

private theorem run_erase (state : State) (tokens : List Token) :
    state.erase.run (tokens.map Token.erase) = (state.run tokens).map erase := by
  induction tokens generalizing state with
  | nil =>
      rfl
  | cons token rest inductionHypothesis =>
      rw [List.map_cons, run_cons, run_cons, accept?_erase]
      cases state.accept? token with
      | none => rfl
      | some next => exact inductionHypothesis next

theorem settle_erase (state : State) : state.erase.settle = state.settle.erase := by
  have sameStage : state.erase.stage = state.stage.erase := rfl
  unfold settle
  rw [sameStage]
  cases state.stage with
  | operator purpose compared joined =>
      simp only [Stage.erase, Waiting.complete_erase, Purpose.statement?_erase]
      cases purpose.statement? (Waiting.complete compareOperator joined compared) with
      | none => rfl
      | some statement => rfl
  | _ => rfl

theorem program?_erase (state : State) :
    state.erase.program? = state.program?.map (List.map Node.erase) := by
  have sameFrames : state.erase.frames = state.frames.map Frame.erase := rfl
  unfold program?
  rw [settle_erase, sameFrames]
  have sameStage : state.settle.erase.stage = state.settle.stage.erase := rfl
  have sameStatements :
      state.settle.erase.statements = state.settle.statements.map Node.erase := rfl
  rw [sameStage, sameStatements]
  cases state.settle.stage with
  | start =>
      cases state.frames with
      | nil => simp [Stage.erase]
      | cons frame others => rfl
  | _ => rfl

/-- The outcome of tokens depends on their places only in its own places. -/
theorem outcome?_erase (state : State) (tokens : List Token) :
    state.erase.outcome? (tokens.map Token.erase) =
      (state.outcome? tokens).map (List.map Node.erase) := by
  rw [outcome?, outcome?, run_erase]
  cases state.run tokens with
  | none => rfl
  | some reached => exact reached.program?_erase

/-- Tokens that are the same up to places have programs that are the same up to places. -/
theorem exists_outcome?_congr {first second : List Token} {program : Program}
    (same : first.map Token.erase = second.map Token.erase)
    (outcome : ({} : State).outcome? first = some program) :
    ∃ other, ({} : State).outcome? second = some other ∧
      other.map Node.erase = program.map Node.erase := by
  have erased := ({} : State).outcome?_erase second
  rw [← same, outcome?_erase, outcome, Option.map_some] at erased
  obtain ⟨other, found, sameProgram⟩ := Option.map_eq_some_iff.mp erased.symm
  exact ⟨other, found, sameProgram⟩

end State

end Reader

end TriforceScript
