import TriforceScript.Proofs.JavaScript.Failure
import TriforceScript.Proofs.Reader.Run

/-!
# What stays read

A token that is accepted changes the state by a few operations only.  What all of these
keep is kept by every run.  A statement that has been read, in particular, stays part of
the program whatever is read behind it, and an expression by itself stays one however it
goes on.
-/

namespace TriforceScript

namespace Reader

/-- A property of states that every operation on them keeps. -/
structure Kept (keeps : State → Prop) : Prop where
  goto : ∀ {state : State} (stage : Stage), keeps state → keeps (state.goto stage)
  note : ∀ {state : State} (note : Note), keeps state → keeps (state.note note)
  push : ∀ {state : State} (statement : Node), keeps state → keeps (state.push statement)
  enter : ∀ {state : State} (condition : Node) (pos brace : Position),
    keeps state → keeps (state.enter condition pos brace)
  leave : ∀ {state next : State}, keeps state → state.leave? = some next → keeps next

namespace Kept

variable {keeps : State → Prop} (kept : Kept keeps) {state next : State}

include kept

private theorem operand? {purpose : Purpose} {compared joined : Waiting} {token : Token}
    (holds : keeps state) (accepted : state.operand? purpose compared joined token = some next) :
    keeps next := by
  unfold State.operand? at accepted
  split at accepted
  · cases accepted
    exact kept.goto _ holds
  · cases accepted
    exact kept.goto _ holds
  · cases accepted

private theorem plain? {token : Token} (holds : keeps state)
    (accepted : state.plain? token = some next) : keeps next := by
  unfold State.plain? at accepted
  split at accepted
  · cases accepted
    exact kept.goto _ (kept.note _ holds)
  · cases accepted
    exact kept.goto _ (kept.note _ holds)
  · exact kept.operand? holds accepted

private theorem start? {token : Token} (holds : keeps state)
    (accepted : state.start? token = some next) : keeps next := by
  unfold State.start? at accepted
  split at accepted
  · cases accepted
    exact kept.push _ holds
  · cases accepted
    exact kept.goto _ (kept.note _ holds)
  · exact kept.leave holds accepted
  · exact kept.plain? holds accepted

private theorem named? {name token : Token} (holds : keeps state)
    (accepted : state.named? name token = some next) : keeps next := by
  unfold State.named? at accepted
  split at accepted
  · cases accepted
    exact kept.goto _ holds
  · cases accepted
    exact kept.goto _ (kept.note _ holds)
  · exact kept.plain? (kept.note _ holds) accepted

private theorem typed? {name token : Token} (holds : keeps state)
    (accepted : state.typed? name token = some next) : keeps next := by
  unfold State.typed? at accepted
  split at accepted
  · exact kept.operand? (kept.note _ holds) accepted
  · cases accepted
    exact kept.goto _ (kept.note _ holds)
  · cases accepted

private theorem operator? {purpose : Purpose} {compared : Waiting} {joined : Node} {token : Token}
    (holds : keeps state)
    (accepted : state.operator? purpose compared joined token = some next) : keeps next := by
  unfold State.operator? at accepted
  dsimp only at accepted
  split at accepted
  · cases accepted
    exact kept.goto _ holds
  · cases accepted
    exact kept.goto _ holds
  · cases accepted
    exact kept.goto _ holds
  · cases accepted
    exact kept.goto _ holds
  · cases accepted
    exact kept.push _ holds
  · split at accepted
    · exact kept.start? (kept.push _ holds) accepted
    · cases accepted

/-- What every operation keeps is kept by every token. -/
theorem accept? {token : Token} (holds : keeps state)
    (accepted : state.accept? token = some next) : keeps next := by
  have fixed {kind : Token.Kind} {reached : State} (reachedHolds : keeps reached)
      (only : (if token.kind = kind then some reached else none) = some next) : keeps next := by
    split at only
    · cases only
      exact reachedHolds
    · cases only
  unfold State.accept? at accepted
  split at accepted
  · exact kept.start? holds accepted
  · exact kept.named? holds accepted
  · exact kept.typed? holds accepted
  · exact fixed (kept.goto _ holds) accepted
  · exact fixed (kept.goto _ holds) accepted
  · exact fixed (kept.goto _ holds) accepted
  · exact fixed (kept.goto _ holds) accepted
  · exact fixed (kept.enter _ _ _ holds) accepted
  · exact fixed (kept.goto _ holds) accepted
  · split at accepted
    · cases accepted
      exact kept.push _ holds
    · exact kept.operand? holds accepted
  · exact kept.operand? holds accepted
  · exact kept.operator? holds accepted

end Kept

/-! ## Statements that cannot be written -/

open JavaScript (Unwritable)

/-- Whether some statement that has been read cannot be written. -/
def Tainted (state : State) : Prop :=
  (∃ tree ∈ state.statements, Unwritable tree) ∨
    ∃ frame ∈ state.frames, ∃ tree ∈ frame.before, Unwritable tree

private theorem tainted_push {state : State} {statement : Node} (unwritable : Unwritable statement)
    :
    Tainted (state.push statement) :=
  .inl ⟨statement, List.Mem.head _, unwritable⟩

private theorem kept_tainted : Kept Tainted where
  goto _ tainted := tainted
  note _ tainted := tainted
  push statement tainted := by
    rcases tainted with ⟨tree, member, unwritable⟩ | inFrames
    · exact .inl ⟨tree, List.mem_cons_of_mem statement member, unwritable⟩
    · exact .inr inFrames
  enter condition pos brace tainted := by
    rcases tainted with inStatements | ⟨frame, member, inFrame⟩
    · exact .inr ⟨_, List.Mem.head _, inStatements⟩
    · exact .inr ⟨frame, List.mem_cons_of_mem _ member, inFrame⟩
  leave {state next} tainted left := by
    unfold State.leave? at left
    split at left
    · cases left
    · rename_i innermost others frames
      cases left
      rcases tainted with ⟨tree, member, unwritable⟩ | ⟨frame, member, tree, before, unwritable⟩
      · -- The block that is closed takes the statement with it into its branch.
        have inBody : tree ∈ state.statements.reverse := List.mem_reverse.mpr member
        exact .inl ⟨_, List.Mem.head _, JavaScript.unwritable_branch inBody unwritable⟩
      · rw [frames] at member
        rcases List.mem_cons.mp member with rfl | inOthers
        · exact .inl ⟨tree, List.mem_cons_of_mem _ before, unwritable⟩
        · exact .inr ⟨frame, inOthers, tree, before, unwritable⟩

/-- Whether an expression by itself is under way. -/
inductive Stage.Bare : Stage → Prop
  | operand (compared joined : Waiting) : Bare (.operand .statement compared joined)
  | operator (compared : Waiting) (joined : Node) : Bare (.operator .statement compared joined)

/-- Whether no program with a text goes on from a state. -/
def Spoiled (state : State) : Prop :=
  Tainted state ∨ state.stage.Bare

private theorem bare_operand? {state next : State} {compared joined : Waiting} {token : Token}
    (accepted : state.operand? .statement compared joined token = some next) :
    next.stage.Bare := by
  unfold State.operand? at accepted
  split at accepted
  · cases accepted
    exact .operator _ _
  · cases accepted
    exact .operator _ _
  · cases accepted

/-- An expression by itself goes on, or it is completed and cannot be written. -/
private theorem spoiled_operator? {state next : State} {compared : Waiting} {joined : Node}
    {token : Token} (accepted : state.operator? .statement compared joined token = some next) :
    Spoiled next := by
  have completed (value : Node) (started : (state.push (.expression value value.pos)).start?
      token = some next) : Spoiled next :=
    .inl (kept_tainted.start? (tainted_push (JavaScript.unwritable_expression _ _)) started)
  unfold State.operator? at accepted
  dsimp only at accepted
  split at accepted
  · cases accepted
    exact .inr (.operand _ _)
  · cases accepted
    exact .inr (.operand _ _)
  · contradiction
  · contradiction
  · contradiction
  · exact completed _ accepted

private theorem spoiled_accept? {state next : State} {token : Token} (spoiled : Spoiled state)
    (accepted : state.accept? token = some next) : Spoiled next := by
  rcases spoiled with tainted | bare
  · exact .inl (kept_tainted.accept? tainted accepted)
  · unfold State.accept? at accepted
    generalize state.stage = stage at bare accepted
    cases bare with
    | operand compared joined => exact .inr (bare_operand? accepted)
    | operator compared joined => exact spoiled_operator? accepted

/-- Once no program with a text can go on, none can later on. -/
theorem spoiled_run {state reached : State} {tokens : List Token} (spoiled : Spoiled state)
    (run : state.run tokens = some reached) : Spoiled reached := by
  induction tokens generalizing state with
  | nil =>
      cases run
      exact spoiled
  | cons token rest inductionHypothesis =>
      rw [State.run_cons, Option.bind_eq_some_iff] at run
      obtain ⟨next, accepted, run⟩ := run
      exact inductionHypothesis (spoiled_accept? spoiled accepted) run

/-- A program read up to a spoiled state has no text. -/
theorem exists_error_of_spoiled {state : State} {program : Program} (spoiled : Spoiled state)
    (ended : state.program? = some program) :
    ∃ fault, JavaScript.statements program = .error fault := by
  rw [State.program?_eq_some_iff] at ended
  obtain ⟨start, noFrames, rfl⟩ := ended
  rw [JavaScript.exists_error_statements_iff]
  have found : ∃ tree ∈ state.settle.statements, Unwritable tree := by
    rcases spoiled with (⟨tree, member, unwritable⟩ | ⟨frame, member, -⟩) | bare
    · rcases state.settle_eq_or with same | ⟨statement, pushed⟩
      · rw [same]
        exact ⟨tree, member, unwritable⟩
      · rw [pushed]
        exact ⟨tree, List.mem_cons_of_mem statement member, unwritable⟩
    · rw [noFrames] at member
      cases member
    · generalize stage : state.stage = reached at bare
      cases bare with
      | operand compared joined =>
          simp [State.settle, stage] at start
      | operator compared joined =>
          rw [State.settle_operator stage rfl]
          exact ⟨_, List.Mem.head _, JavaScript.unwritable_expression _ _⟩
  obtain ⟨tree, member, unwritable⟩ := found
  exact ⟨tree, List.mem_reverse.mpr member, unwritable⟩

end Reader

end TriforceScript
