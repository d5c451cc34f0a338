import TriforceScript.Proofs.JavaScript.Failure
import TriforceScript.Proofs.JavaScript.Reading

/-!
# Emission

A parsed program has no holes, so that a single defect can keep it from being written: an
expression that stands by itself among the statements, at any depth of blocks.
-/

namespace TriforceScript

namespace Node

/-! ## Populated trees -/

def IsPrimary (tree : Node) : Prop :=
  tree.kind? ∈ [some .identifier, some .string]

def IsValue (tree : Node) : Prop :=
  tree.kind? ∈ [some .identifier, some .string, some .binary]

/-- A comparison stands in a tree, at any depth. -/
def Compares (tree : Node) : Prop :=
  ∃ left right pos, (Node.binary (utf8 "==") left right pos).Within tree

/-- A node has in its places what belongs there.  Values stand where values are needed, a branch
has its first block and no second one, and operands are grouped as the operators demand. -/
def Populated : Node → Prop
  | .comment _ _ | .identifier _ _ | .string _ _ => True
  | .declaration _ _ value _ | .assignment _ value _ | .expression value _ => value.IsValue
  | .branch condition body otherwise _ =>
      condition.IsValue ∧ body.isMissing = false ∧ otherwise.isMissing = true
  | .write arguments _ => ∀ argument ∈ arguments, argument.IsValue
  | .binary operator left right _ =>
      left.IsValue ∧ right.IsValue ∧
        (operator = utf8 "->" ∧ ¬ left.Compares ∧ right.IsPrimary ∨
          operator = utf8 "==" ∧ ¬ right.Compares)
  | .block _ | .missing => False

private theorem IsOperand.isPrimary {tree : Node} (isOperand : IsOperand tree) :
    tree.IsPrimary := by
  cases isOperand <;> simp [IsPrimary, kind?]

private theorem IsJoin.isValue {tree : Node} (isJoin : IsJoin tree) : tree.IsValue := by
  cases isJoin with
  | operand isOperand => cases isOperand <;> simp [IsValue, kind?]
  | join _ _ => simp [IsValue, kind?]

private theorem IsExpression.isValue {tree : Node} (isExpression : IsExpression tree) :
    tree.IsValue := by
  cases isExpression with
  | join isJoin => exact isJoin.isValue
  | compare _ _ => simp [IsValue, kind?]

private theorem Within.isJoin {part tree : Node} (within : part.Within tree) (isJoin : IsJoin tree)
    :
    IsJoin part := by
  induction within with
  | self => exact isJoin
  | child member _ inductionHypothesis => exact inductionHypothesis (isJoin.isJoin_of_mem member)

private theorem IsJoin.not_compares {tree : Node} (isJoin : IsJoin tree) : ¬ tree.Compares := by
  rintro ⟨left, right, pos, within⟩
  have different : utf8 "==" ≠ utf8 "->" := by
    decide
  generalize utf8 "==" = operator at within different
  cases within.isJoin isJoin with
  | operand isOperand => cases isOperand
  | join _ _ => exact different rfl

private theorem IsExpression.populated {tree : Node} (isExpression : IsExpression tree) :
    tree.Populated := by
  cases isExpression with
  | join isJoin =>
      cases isJoin with
      | operand isOperand => cases isOperand <;> trivial
      | join isLeft isRight =>
          exact ⟨isLeft.isValue, (IsJoin.operand isRight).isValue,
            .inl ⟨rfl, isLeft.not_compares, isRight.isPrimary⟩⟩
  | compare isLeft isRight =>
      exact ⟨isLeft.isValue, isRight.isValue, .inr ⟨rfl, isRight.not_compares⟩⟩

private theorem IsStatement.populated {tree : Node} (isStatement : IsStatement tree) :
    tree.Populated := by
  cases isStatement with
  | comment _ _ => trivial
  | declaration _ _ isValue | assignment _ isValue | expression isValue => exact isValue.isValue
  | branch isCondition _ => exact ⟨isCondition.isValue, rfl, rfl⟩
  | write areValues => exact fun argument member => (areValues argument member).isValue

private theorem Within.populated {part tree : Node} (within : part.Within tree)
    (isStatement : IsStatement tree) : part.Populated := by
  rcases within.isStatement_or_isExpression (.inl isStatement) with isStatement | isExpression
  · exact isStatement.populated
  · exact isExpression.populated

/-! ## Statements in blocks -/

/-- A statement stands in a list of statements, or in a block at any depth of it. -/
inductive Occurs (tree : Node) : List Node → Prop
  | here {list : List Node} : tree ∈ list → Occurs tree list
  | inBlock {list : List Node} {condition : Node} {body otherwise : Block} {pos : Position} :
      Node.branch condition body otherwise pos ∈ list →
      Occurs tree body.statements →
      Occurs tree list

private theorem mem_visitsAll {site : Site} {trees : List Node} :
    site ∈ visitsAll trees ↔ ∃ tree ∈ trees, site ∈ tree.visits := by
  induction trees with
  | nil =>
      simp [visitsAll]
  | cons tree rest inductionHypothesis =>
      simp [visitsAll, inductionHypothesis]

private theorem node_mem_visits (tree : Node) : .node tree ∈ tree.visits := by
  cases tree <;> simp [visits]

private theorem Occurs.mem_visitsAll {tree : Node} {list : List Node} (occurs : tree.Occurs list) :
    .node tree ∈ visitsAll list := by
  induction occurs with
  | here member =>
      exact Node.mem_visitsAll.mpr ⟨tree, member, tree.node_mem_visits⟩
  | @inBlock list condition body otherwise pos member _ inductionHypothesis =>
      refine Node.mem_visitsAll.mpr ⟨_, member, ?_⟩
      have inBody : .node tree ∈ body.visits := by
        cases body with
        | missing => cases inductionHypothesis
        | braced statements pos =>
            rw [Block.visits]
            exact List.mem_cons_of_mem _ inductionHypothesis
      simp [visits, inBody]

private theorem IsExpression.defect?_of_mem {tree : Node} (isExpression : IsExpression tree) :
    ∀ site ∈ tree.visits, site.defect? = none := by
  obtain ⟨text, _, _, isText, -⟩ := JavaScript.written_expression isExpression
  exact (JavaScript.exists_ok_iff_of_failure (JavaScript.failure_node 0 tree)).mp ⟨text, isText⟩

/-- Every defect in a statement is an expression by itself, in a list that the statement stands in
or in a block below. -/
private theorem IsStatement.exists_occurs {tree : Node} (isStatement : IsStatement tree)
    {list : List Node} (member : tree ∈ list) {site : Site} (visited : site ∈ tree.visits)
    {defect : Defect} (met : site.defect? = some defect) :
    defect = .bareExpression ∧ ∃ value pos, (Node.expression value pos).Occurs list := by
  -- Values are without defects, and so is the statement itself unless it is an expression.
  have noValue {value : Node} (isValue : IsExpression value) (inValue : site ∈ value.visits) :
      False := by
    rw [isValue.defect?_of_mem site inValue] at met
    cases met
  induction isStatement generalizing list with
  | comment _ _ =>
      rw [visits, List.mem_singleton] at visited
      subst visited
      cases met
  | declaration _ _ isValue | assignment _ isValue =>
      rw [visits, List.mem_cons] at visited
      rcases visited with rfl | inValue
      · cases met
      · exact (noValue isValue inValue).elim
  | @branch condition body brace pos isCondition _ inductionHypothesis =>
      rw [visits, List.mem_cons, List.mem_append, List.mem_append, Block.visits,
        List.mem_cons] at visited
      rcases visited with rfl | inCondition | (rfl | inBody) | inOther
      · cases met
      · exact (noValue isCondition inCondition).elim
      · cases met
      · obtain ⟨statement, inList, inStatement⟩ := mem_visitsAll.mp inBody
        obtain ⟨isBare, value, place, occurs⟩ :=
          inductionHypothesis statement inList inList inStatement
        exact ⟨isBare, value, place, .inBlock member occurs⟩
      · cases inOther
  | write areValues =>
      rw [visits, List.mem_cons] at visited
      rcases visited with rfl | inArguments
      · cases met
      · obtain ⟨argument, isArgument, inArgument⟩ := mem_visitsAll.mp inArguments
        exact (noValue (areValues argument isArgument) inArgument).elim
  | @expression value pos _ =>
      rw [visits, List.mem_singleton] at visited
      subst visited
      cases met
      exact ⟨rfl, value, pos, .here member⟩

end Node

/-! ## Faults of compilations -/

namespace Program.WellFormed

variable {program : Program} (wellFormed : program.WellFormed)

include wellFormed

private theorem occurs_of_firstDefect? {defect : Defect}
    (met : firstDefect? (Node.visitsAll program) = some defect) :
    defect = .bareExpression ∧ ∃ value pos, (Node.expression value pos).Occurs program := by
  obtain ⟨site, visited, isDefect⟩ := List.exists_of_findSome?_eq_some met
  obtain ⟨statement, member, inStatement⟩ := Node.mem_visitsAll.mp visited
  exact (wellFormed statement member).exists_occurs member inStatement isDefect

/-- A program of the language has a file unless an expression stands by itself in it. -/
theorem file_cases :
    (∃ code,
      JavaScript.file program = .ok code ∧
      ¬ ∃ value pos, (Node.expression value pos).Occurs program) ∨
    JavaScript.file program = .error Defect.bareExpression.fault ∧
      ∃ value pos, (Node.expression value pos).Occurs program := by
  rcases JavaScript.failure_cases (JavaScript.failure_file program) with
    ⟨noDefect, code, written⟩ | ⟨defect, met, failed⟩
  · refine .inl ⟨code, written, ?_⟩
    rintro ⟨value, pos, occurs⟩
    have impossible := firstDefect?_eq_none_iff.mp noDefect _ occurs.mem_visitsAll
    cases impossible
  · obtain ⟨rfl, occurs⟩ := wellFormed.occurs_of_firstDefect? met
    exact .inr ⟨failed, occurs⟩

private theorem eq_of_file_eq_error {fault : EmitFault}
    (failed : JavaScript.file program = .error fault) :
    fault = Defect.bareExpression.fault := by
  rcases wellFormed.file_cases with ⟨code, written, -⟩ | ⟨bare, -⟩
  · rw [written] at failed
    cases failed
  · rw [bare] at failed
    cases failed
    rfl

theorem exists_error_file_iff :
    (∃ fault, JavaScript.file program = .error fault) ↔
      ∃ value pos, (Node.expression value pos).Occurs program := by
  rcases wellFormed.file_cases with ⟨code, written, absent⟩ | ⟨bare, occurs⟩
  · simp [written, absent]
  · simp [bare, occurs]

end Program.WellFormed

/-- A compilation that fails at the last step has come to a program that has no file. -/
private theorem exists_program_of_emit {source : Bytes} {inner : EmitFault}
    (failed : (compile source).result = .error (.emit inner)) :
    ∃ program, (parse source).result = .ok program ∧ JavaScript.file program = .error inner := by
  unfold compile at failed
  unfold parse
  cases scanned : scan source with
  | error fault =>
      rw [scanned] at failed
      cases failed
  | ok tokens =>
      rw [scanned] at failed
      dsimp only at failed ⊢
      cases read : (readTokens tokens).result with
      | error fault =>
          rw [read] at failed
          cases failed
      | ok program =>
          refine ⟨program, rfl, ?_⟩
          rw [read] at failed
          change (JavaScript.file program).mapError Fault.emit >>= _ = _ at failed
          cases written : JavaScript.file program with
          | error fault =>
              rw [written] at failed
              cases failed
              rfl
          | ok code =>
              rw [written] at failed
              cases failed

private theorem ScanFault.head?_message (fault : ScanFault) : fault.message.head? = some 0x75 := by
  cases fault <;> rfl

private theorem ParseFault.head?_message_ne (fault : ParseFault) :
    fault.message.head? ≠ some 0x6D := by
  intro starts
  obtain ⟨expected, found⟩ := fault
  cases expected <;> cases starts

/-- A source text can cause one fault of emission only.  Every tree of a parsed program is fully
populated, and the program has no file exactly if an expression stands by itself in some list of
statements.  So no compilation fails for a missing node or block. -/
theorem emission_faults (source : Bytes) :
    (∀ program, (parse source).result = .ok program →
      (∀ statement ∈ program, ∀ part : Node, part.Within statement → part.Populated) ∧
      ((∃ fault, JavaScript.file program = .error fault) ↔
        ∃ value pos, (Node.expression value pos).Occurs program) ∧
      ∀ fault, JavaScript.file program = .error fault →
        (Fault.emit fault).diagnostic =
          ⟨some .emit, 0, some (utf8 "unsupported node type: ExpressionStatement"), false⟩) ∧
    ∀ fault, (compile source).result = .error fault →
      fault.message ≠ utf8 "missing node" ∧ fault.message ≠ utf8 "missing block" := by
  have bare (program : Program) (parsed : (parse source).result = .ok program)
      (fault : EmitFault) (failed : JavaScript.file program = .error fault) :
      fault = Defect.bareExpression.fault :=
    (wellFormed_of_parse parsed).eq_of_file_eq_error failed
  constructor
  · intro program parsed
    have wellFormed := wellFormed_of_parse parsed
    refine ⟨?_, wellFormed.exists_error_file_iff, ?_⟩
    · intro statement member part within
      exact within.populated (wellFormed statement member)
    · intro fault failed
      rw [bare program parsed fault failed]
      exact Defect.bareExpression.diagnostic_fault
  · intro fault failed
    -- The texts about missing parts start with a letter that no message starts with.
    have startsOther : fault.message.head? ≠ some 0x6D := by
      cases fault with
      | scan inner =>
          rw [Fault.message, inner.head?_message]
          decide
      | parse inner => exact inner.head?_message_ne
      | emit inner =>
          obtain ⟨program, parsed, failedFile⟩ := exists_program_of_emit failed
          rw [bare program parsed inner failedFile]
          decide
    exact ⟨fun isMissing => startsOther (congrArg List.head? isMissing),
      fun isMissing => startsOther (congrArg List.head? isMissing)⟩

end TriforceScript
