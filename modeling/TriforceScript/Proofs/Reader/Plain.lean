import TriforceScript.Proofs.JavaScript.Plain
import TriforceScript.Proofs.Reader.Run

/-!
# Reading plain tokens

The reader makes trees and notes from the texts of tokens.  As long as these are plain, so is
everything that it has read, and so is whatever it tells about a token that it blocks.
-/

namespace TriforceScript

namespace Reader

/-! ## Plain states -/

def Waiting.Plain (waiting : Waiting) : Prop :=
  ∀ operand ∈ waiting, operand.1.Plain

def Purpose.Plain : Purpose → Prop
  | .declaration name _ _ => name.Plain
  | .assignment name _ => name.Plain
  | .argument others _ => ∀ other ∈ others, other.Plain
  | .statement | .condition _ => True

def Stage.Plain : Stage → Prop
  | .name token | .typeMark token | .typeOpen token => token.text.Plain
  | .typeName token _ | .typeClose token _ => token.text.Plain
  | .branchArrow condition _ => condition.Plain
  | .operand purpose compared joined => purpose.Plain ∧ compared.Plain ∧ joined.Plain
  | .operator purpose compared joined => purpose.Plain ∧ compared.Plain ∧ joined.Plain
  | .start | .branchWord _ | .writeWord _ | .writeOpen _ => True

/-- Whether everything that has been read is plain. -/
structure State.Plain (state : State) : Prop where
  stage : state.stage.Plain
  statements : ∀ statement ∈ state.statements, statement.Plain
  frames : ∀ frame ∈ state.frames,
    frame.condition.Plain ∧ ∀ statement ∈ frame.before, statement.Plain
  notes : ∀ note ∈ state.notes, note.message.Plain

private theorem Waiting.plain_none : Waiting.Plain none := by
  intro operand member
  cases member

private theorem Waiting.plain_some {left : Node} (plain : left.Plain) (pos : Position) :
    Waiting.Plain (some (left, pos)) := by
  rintro operand ⟨⟩
  exact plain

private theorem Waiting.Plain.complete {waiting : Waiting} {operator : Bytes} {right : Node}
    (plain : waiting.Plain) (plainOperator : operator.Plain) (plainRight : right.Plain) :
    (waiting.complete operator right).Plain := by
  cases waiting with
  | none => exact plainRight
  | some operand =>
      obtain ⟨left, pos⟩ := operand
      have plainLeft : left.Plain := plain (left, pos) rfl
      rw [Waiting.complete, Node.plain_iff]
      simp [Node.text, Node.children, plainOperator, plainLeft, plainRight]

private theorem Purpose.Plain.statement? {purpose : Purpose} {value statement : Node}
    (plain : purpose.Plain) (plainValue : value.Plain)
    (completed : purpose.statement? value = some statement) : statement.Plain := by
  cases purpose with
  | declaration _ _ _ | assignment _ _ =>
      cases completed
      refine .intro plain ?_
      simp [Node.children, plainValue]
  | statement =>
      cases completed
      refine .intro Bytes.plain_nil ?_
      simp [Node.children, plainValue]
  | condition _ | argument _ _ => cases completed

namespace State

variable {state next : State}

private theorem Plain.goto (plain : state.Plain) {stage : Stage} (plainStage : stage.Plain) :
    (state.goto stage).Plain :=
  { plain with stage := plainStage }

private theorem Plain.note (plain : state.Plain) {note : Note} (plainNote : note.message.Plain) :
    (state.note note).Plain where
  stage := plain.stage
  statements := plain.statements
  frames := plain.frames
  notes := List.forall_mem_cons.mpr ⟨plainNote, plain.notes⟩

private theorem Plain.push (plain : state.Plain) {statement : Node}
    (plainStatement : statement.Plain) :
    (state.push statement).Plain where
  stage := trivial
  statements := List.forall_mem_cons.mpr ⟨plainStatement, plain.statements⟩
  frames := plain.frames
  notes := plain.notes

private theorem Plain.enter (plain : state.Plain) {condition : Node}
    (plainCondition : condition.Plain)
    (pos brace : Position) : (state.enter condition pos brace).Plain where
  stage := trivial
  statements := by
    intro statement member
    cases member
  frames := List.forall_mem_cons.mpr ⟨⟨plainCondition, plain.statements⟩, plain.frames⟩
  notes := plain.notes

private theorem Plain.leave? (plain : state.Plain) (left : state.leave? = some next) :
    next.Plain := by
  unfold State.leave? at left
  split at left
  · cases left
  · rename_i frame others frames
    cases left
    have plainFrames := plain.frames
    rw [frames] at plainFrames
    obtain ⟨⟨plainCondition, plainBefore⟩, plainOthers⟩ := List.forall_mem_cons.mp plainFrames
    have plainBranch : (frame.node state.statements).Plain := by
      refine .intro Bytes.plain_nil ?_
      simpa [Frame.node, Node.children, Block.statements] using ⟨plainCondition, plain.statements⟩
    exact ⟨trivial, List.forall_mem_cons.mpr ⟨plainBranch, plainBefore⟩, plainOthers, plain.notes⟩

/-! ## Accepting plain tokens -/

section Accept

variable {token : Token} (plain : state.Plain) (plainToken : token.text.Plain)

include plain plainToken

private theorem Plain.operand? {purpose : Purpose} {compared joined : Waiting}
    (accepted : state.operand? purpose compared joined token = some next)
    (plainPurpose : purpose.Plain) (plainCompared : compared.Plain) (plainJoined : joined.Plain) :
    next.Plain := by
  have plainOperand {operand : Node} (plainText : operand.text.Plain)
      (alone : operand.children = []) :
      (state.goto (.operator purpose compared (joined.complete joinOperator operand))).Plain := by
    have plainTree : operand.Plain := .intro plainText (by simp [alone])
    exact plain.goto ⟨plainPurpose, plainCompared, plainJoined.complete (by decide) plainTree⟩
  unfold State.operand? at accepted
  split at accepted
  · cases accepted
    exact plainOperand plainToken rfl
  · cases accepted
    exact plainOperand plainToken rfl
  · cases accepted

private theorem Plain.plain? (accepted : state.plain? token = some next) : next.Plain := by
  unfold State.plain? at accepted
  split at accepted
  · cases accepted
    exact (plain.note (by simp +decide [Note.message])).goto trivial
  · cases accepted
    exact (plain.note (by simp +decide [Note.message])).goto trivial
  · exact plain.operand? plainToken accepted trivial Waiting.plain_none Waiting.plain_none

private theorem Plain.start? (accepted : state.start? token = some next) : next.Plain := by
  unfold State.start? at accepted
  split at accepted
  · cases accepted
    exact plain.push (.intro plainToken (by simp [Node.children]))
  · cases accepted
    exact (plain.note (by simp +decide [Note.message, plainToken])).goto plainToken
  · exact plain.leave? accepted
  · exact plain.plain? plainToken accepted

private theorem Plain.named? {name : Token} (plainName : name.text.Plain)
    (accepted : state.named? name token = some next) : next.Plain := by
  unfold State.named? at accepted
  split at accepted
  · cases accepted
    exact plain.goto plainName
  · cases accepted
    exact (plain.note (by simp +decide [Note.message, plainName])).goto
      ⟨plainName, Waiting.plain_none, Waiting.plain_none⟩
  · exact (plain.note (by simp +decide [Note.message, plainName])).plain? plainToken accepted

private theorem Plain.typed? {name : Token} (plainName : name.text.Plain)
    (accepted : state.typed? name token = some next) : next.Plain := by
  unfold State.typed? at accepted
  split at accepted
  · exact (plain.note (by simp +decide [Note.message, plainName])).operand? plainToken accepted
      plainName Waiting.plain_none Waiting.plain_none
  · cases accepted
    exact (plain.note (by simp +decide [Note.message, plainName])).goto plainName
  · cases accepted

private theorem Plain.operator? {purpose : Purpose} {compared : Waiting} {joined : Node}
    (accepted : state.operator? purpose compared joined token = some next)
    (plainPurpose : purpose.Plain) (plainCompared : compared.Plain) (plainJoined : joined.Plain) :
    next.Plain := by
  have plainValue := plainCompared.complete (show compareOperator.Plain by decide) plainJoined
  unfold State.operator? at accepted
  dsimp only at accepted
  split at accepted
  · cases accepted
    exact plain.goto ⟨plainPurpose, plainCompared, Waiting.plain_some plainJoined _⟩
  · cases accepted
    exact plain.goto ⟨plainPurpose, Waiting.plain_some plainValue _, Waiting.plain_none⟩
  · cases accepted
    exact plain.goto plainValue
  · cases accepted
    exact plain.goto
      ⟨List.forall_mem_cons.mpr ⟨plainValue, plainPurpose⟩, Waiting.plain_none, Waiting.plain_none⟩
  · cases accepted
    refine plain.push (.intro Bytes.plain_nil ?_)
    intro argument member
    exact List.forall_mem_cons.mpr ⟨plainValue, plainPurpose⟩ argument (List.mem_reverse.mp member)
  · split at accepted
    · rename_i completed
      exact (plain.push (plainPurpose.statement? plainValue completed)).start? plainToken accepted
    · cases accepted

/-- Accepting a plain token keeps everything plain. -/
theorem Plain.accept? (accepted : state.accept? token = some next) : next.Plain := by
  have fixed {kind : Token.Kind} {reached : State}
      (only : (if token.kind = kind then some reached else none) = some next)
      (plainReached : reached.Plain) : next.Plain := by
    split at only
    · cases only
      exact plainReached
    · cases only
  have plainStage := plain.stage
  unfold State.accept? at accepted
  generalize state.stage = stage at accepted plainStage
  cases stage with
  | start => exact plain.start? plainToken accepted
  | name name => exact plain.named? plainToken plainStage accepted
  | typeMark name => exact plain.typed? plainToken plainStage accepted
  | typeOpen name => exact fixed accepted (plain.goto plainStage)
  | typeName name type => exact fixed accepted (plain.goto plainStage)
  | typeClose name type =>
      exact fixed accepted (plain.goto ⟨plainStage, Waiting.plain_none, Waiting.plain_none⟩)
  | branchWord pos =>
      exact fixed accepted (plain.goto ⟨trivial, Waiting.plain_none, Waiting.plain_none⟩)
  | branchArrow condition pos => exact fixed accepted (plain.enter plainStage _ _)
  | writeWord pos => exact fixed accepted (plain.goto trivial)
  | writeOpen pos =>
      dsimp only at accepted
      split at accepted
      · cases accepted
        exact plain.push (.intro Bytes.plain_nil (by simp [Node.children]))
      · exact plain.operand? plainToken accepted (by simp [Purpose.Plain]) Waiting.plain_none
          Waiting.plain_none
  | operand purpose compared joined =>
      exact plain.operand? plainToken accepted plainStage.1 plainStage.2.1 plainStage.2.2
  | operator purpose compared joined =>
      exact plain.operator? plainToken accepted plainStage.1 plainStage.2.1 plainStage.2.2

end Accept

/-! ## Whole readings -/

private theorem Plain.settle (plain : state.Plain) : state.settle.Plain := by
  rcases state.settle_cases with same | ⟨purpose, compared, joined, statement, stage, completed, pushed⟩
  · rwa [same]
  · have plainStage := plain.stage
    rw [stage] at plainStage
    obtain ⟨plainPurpose, plainCompared, plainJoined⟩ := plainStage
    have plainValue := plainCompared.complete (show compareOperator.Plain by decide) plainJoined
    rw [pushed]
    exact plain.push (plainPurpose.statement? plainValue completed)

private theorem Plain.lastNotes (plain : state.Plain) :
    ∀ note ∈ state.lastNotes, note.message.Plain := by
  have plainStage := plain.stage
  unfold State.lastNotes
  generalize state.stage = stage at plainStage
  cases stage with
  | name name | typeMark name =>
      have plainName : name.text.Plain := plainStage
      exact List.forall_mem_cons.mpr ⟨by simp +decide [Note.message, plainName], plain.notes⟩
  | _ => exact plain.notes

end State

end Reader

theorem Token.Kind.plain_name (kind : Token.Kind) : kind.name.Plain := by
  cases kind with
  | unknown _ => exact (by decide : (utf8 "unknown").Plain)
  | _ => decide

private theorem ParseFault.plain_message {fault : ParseFault} (plainToken : fault.found.text.Plain)
    :
    fault.message.Plain := by
  have wording : fault.expected.message.Plain := by
    cases fault.expected <;> decide
  simp +decide [ParseFault.message, wording, Token.Kind.plain_name, plainToken]

/-- Whether everything that comes of reading tokens is plain. -/
structure Reading.Plain (reading : Reading) : Prop where
  notes : ∀ note ∈ reading.notes, note.message.Plain
  result : Plainly ParseFault.message (∀ statement ∈ ·, statement.Plain) reading.result

namespace Reader

private theorem State.Plain.reject {state : State} {token : Token} (plain : state.Plain)
    (plainToken : token.text.Plain) : (state.reject token).Plain where
  notes note member := plain.lastNotes note (List.mem_reverse.mp member)
  result := .error (ParseFault.plain_message plainToken)

private theorem State.Plain.finish {state : State} {endToken : Token} (plain : state.Plain)
    (plainEnd : endToken.text.Plain) : (state.finish endToken).Plain := by
  unfold State.finish
  split
  · rename_i program ended
    obtain ⟨-, -, rfl⟩ := State.program?_eq_some_iff.mp ended
    refine ⟨fun note member => plain.notes note (List.mem_reverse.mp member), .ok ?_⟩
    intro statement member
    exact plain.settle.statements statement (List.mem_reverse.mp member)
  · exact plain.reject plainEnd

private theorem State.Plain.read {state : State} {endToken : Token} {tokens : List Token}
    (plain : state.Plain) (plainEnd : endToken.text.Plain)
    (plainTokens : ∀ token ∈ tokens, token.text.Plain) : (state.read endToken tokens).Plain := by
  induction tokens generalizing state with
  | nil =>
      exact plain.finish plainEnd
  | cons token rest inductionHypothesis =>
      obtain ⟨plainToken, plainRest⟩ := List.forall_mem_cons.mp plainTokens
      rw [State.read]
      split
      · rename_i next accepted
        exact inductionHypothesis (plain.accept? plainToken accepted) plainRest
      · exact plain.reject plainToken

end Reader

theorem plain_readTokens {tokens : List Token} (plain : ∀ token ∈ tokens, token.text.Plain) :
    (readTokens tokens).Plain := by
  have plainStart : ({} : Reader.State).Plain :=
    ⟨trivial, by simp, by simp, by simp⟩
  have plainEnd :
      ((tokens.find? (·.kind == .eof)).getD ⟨.eof, [], Token.lastPos tokens⟩).text.Plain := by
    cases found : tokens.find? (·.kind == .eof) with
    | none => exact Bytes.plain_nil
    | some endToken => exact plain endToken (List.mem_of_find?_eq_some found)
  apply plainStart.read plainEnd
  intro token member
  exact plain token (List.takeWhile_sublist _ |>.subset member)

end TriforceScript
