import TriforceScript.Fault

/-!
# Trees without text

Writing a tree visits its parts in a fixed order.  The tree has no text exactly if a part with
a defect is visited, and the first such part is the reason.  So neither the depth at which the
tree is written matters to this, nor what has been written before.
-/

namespace TriforceScript

/-! ## Visits -/

/-- A place of a tree where a node or a block should stand. -/
inductive Site where
  | node (content : Node)
  | block (content : Block)

mutual

/-- The places of a tree in the order in which they are visited.  Those of an expression by
itself are not visited, nor is a second block that is missing. -/
def Node.visits : Node → List Site
  | .declaration name type value pos => .node (.declaration name type value pos) :: value.visits
  | .assignment name value pos => .node (.assignment name value pos) :: value.visits
  | .branch condition body otherwise pos =>
      .node (.branch condition body otherwise pos) ::
        (condition.visits ++
          (body.visits ++ if otherwise.isMissing then [] else otherwise.visits))
  | .block content => .node (.block content) :: content.visits
  | .write arguments pos => .node (.write arguments pos) :: Node.visitsAll arguments
  | .binary operator left right pos =>
      .node (.binary operator left right pos) :: (left.visits ++ right.visits)
  | .comment text pos => [.node (.comment text pos)]
  | .expression value pos => [.node (.expression value pos)]
  | .identifier name pos => [.node (.identifier name pos)]
  | .string value pos => [.node (.string value pos)]
  | .missing => [.node .missing]

def Block.visits : Block → List Site
  | .braced statements pos => .block (.braced statements pos) :: Node.visitsAll statements
  | .missing => [.block .missing]

def Node.visitsAll : List Node → List Site
  | [] => []
  | tree :: rest => tree.visits ++ Node.visitsAll rest

end

/-- What may be wrong with a place. -/
inductive Defect where
  | missingNode
  | missingBlock
  | bareExpression
  deriving DecidableEq, Repr

namespace Defect

def message : Defect → Bytes
  | .missingNode => utf8 "missing node"
  | .missingBlock => utf8 "missing block"
  | .bareExpression => utf8 "unsupported node type: ExpressionStatement"

/-- The fault of a tree with the defect. -/
def fault : Defect → EmitFault
  | .missingNode => .missingNode
  | .missingBlock => .missingBlock
  | .bareExpression => .unsupported .expression

/-- A fault that a defect causes belongs to no line, and nothing can mend it. -/
theorem diagnostic_fault (defect : Defect) :
    (Fault.emit defect.fault).diagnostic = ⟨some .emit, 0, some defect.message, false⟩ := by
  cases defect <;> decide

end Defect

def Site.defect? : Site → Option Defect
  | .node .missing => some .missingNode
  | .node (.expression _ _) => some .bareExpression
  | .block .missing => some .missingBlock
  | _ => none

/-- The first defect that is met. -/
def firstDefect? (sites : List Site) : Option Defect :=
  sites.findSome? Site.defect?

theorem firstDefect?_append (first second : List Site) :
    firstDefect? (first ++ second) = (firstDefect? first).or (firstDefect? second) :=
  List.findSome?_append

theorem firstDefect?_eq_none_iff {sites : List Site} :
    firstDefect? sites = none ↔ ∀ site ∈ sites, site.defect? = none :=
  List.findSome?_eq_none_iff

namespace JavaScript

theorem bind_eq_ok_iff {First Second : Type} {first : Except EmitFault First}
    {second : First → Except EmitFault Second} {result : Second} :
    (first >>= second) = .ok result ↔ ∃ text, first = .ok text ∧ second text = .ok result := by
  cases first with
  | error fault => simp [bind, Except.bind]
  | ok text => simp [bind, Except.bind]

/-! ## Failure -/

/-- What is left of a text when only its failure matters. -/
def failure {Text : Type} (text : Except EmitFault Text) : Except EmitFault Unit :=
  text.map fun _ => ()

/-- What a visit comes to that meets a certain defect first, or none at all. -/
def verdict : Option Defect → Except EmitFault Unit
  | none => .ok ()
  | some defect => .error defect.fault

section Bind

variable {First Second : Type} {first : Except EmitFault First} {met : Option Defect}

/-- What comes second matters only if nothing has failed before. -/
private theorem failure_bind {second : First → Except EmitFault Second} {rest : Option Defect}
    (isFirst : failure first = verdict met)
    (isSecond : ∀ text, failure (second text) = verdict rest) :
    failure (first >>= second) = verdict (met.or rest) := by
  cases first with
  | error fault =>
      cases met with
      | none => cases isFirst
      | some defect =>
          cases isFirst
          rfl
  | ok text =>
      cases met with
      | none => exact isSecond text
      | some defect => cases isFirst

private theorem failure_bind_pure {combine : First → Second} (isFirst : failure first = verdict met)
    :
    failure (first >>= fun text => pure (combine text)) = verdict met := by
  have isSecond (text : First) :
      failure (pure (combine text) : Except EmitFault Second) = verdict none := rfl
  have whole := failure_bind isFirst isSecond
  rwa [Option.or_none] at whole

end Bind

mutual

/-- The failure of a node is the first defect that is met in it, whatever its depth. -/
theorem failure_node (depth : Nat) (tree : Node) :
    failure (node depth tree) = verdict (firstDefect? tree.visits) := by
  match tree with
  | .comment _ _ | .expression _ _ | .identifier _ _ | .string _ _ | .missing =>
      rw [node, Node.visits]
      rfl
  | .declaration _ _ value _ | .assignment _ value _ =>
      rw [node, Node.visits]
      exact failure_bind_pure (failure_node 0 value)
  | .branch condition body otherwise _ =>
      rw [node, Node.visits]
      show _ = verdict (firstDefect? (_ ++ (_ ++ _)))
      rw [firstDefect?_append, firstDefect?_append]
      refine failure_bind (failure_node 0 condition) fun _ => ?_
      refine failure_bind (failure_block depth body) fun _ => ?_
      split
      · rfl
      · exact failure_bind_pure (failure_block depth otherwise)
  | .block content =>
      rw [node, Node.visits]
      exact failure_block depth content
  | .write arguments _ =>
      rw [node, Node.visits]
      exact failure_bind_pure (failure_nodes 0 arguments)
  | .binary _ left right _ =>
      rw [node, Node.visits]
      show _ = verdict (firstDefect? (_ ++ _))
      rw [firstDefect?_append]
      exact failure_bind (failure_node 0 left) fun _ => failure_bind_pure (failure_node 0 right)

theorem failure_block (depth : Nat) (content : Block) :
    failure (block depth content) = verdict (firstDefect? content.visits) := by
  match content with
  | .missing =>
      rw [block, Block.visits]
      rfl
  | .braced statements _ =>
      rw [block, Block.visits]
      exact failure_bind_pure (failure_nodes (depth + 1) statements)

private theorem failure_nodes (depth : Nat) (trees : List Node) :
    failure (nodes depth trees) = verdict (firstDefect? (Node.visitsAll trees)) := by
  match trees with
  | [] =>
      rw [nodes, Node.visitsAll]
      rfl
  | tree :: rest =>
      rw [nodes, Node.visitsAll, firstDefect?_append]
      exact failure_bind (failure_node depth tree) fun _ =>
        failure_bind_pure (failure_nodes depth rest)

end

/-! ## The first defect -/

theorem failure_map {Text Other : Type} (text : Except EmitFault Text) (change : Text → Other) :
    failure (text.map change) = failure text := by
  cases text <;> rfl

private theorem failure_statements (program : Program) :
    failure (statements program) = verdict (firstDefect? (Node.visitsAll program)) := by
  rw [statements, failure_map, failure_nodes]

theorem failure_file (program : Program) :
    failure (file program) = verdict (firstDefect? (Node.visitsAll program)) := by
  rw [file, failure_map, failure_statements]

/-- What is judged to have no defect has been written, and all else has failed. -/
theorem failure_cases {Text : Type} {text : Except EmitFault Text} {met : Option Defect}
    (judged : failure text = verdict met) :
    (met = none ∧ ∃ result, text = .ok result) ∨
      ∃ defect, met = some defect ∧ text = .error defect.fault := by
  cases met with
  | none =>
      cases text with
      | error fault => cases judged
      | ok result => exact .inl ⟨rfl, result, rfl⟩
  | some defect =>
      cases text with
      | error fault =>
          cases judged
          exact .inr ⟨defect, rfl, rfl⟩
      | ok result => cases judged

theorem exists_ok_iff_of_failure {Text : Type} {text : Except EmitFault Text} {sites : List Site}
    (judged : failure text = verdict (firstDefect? sites)) :
    (∃ result, text = .ok result) ↔ ∀ site ∈ sites, site.defect? = none := by
  rw [← firstDefect?_eq_none_iff]
  rcases failure_cases judged with ⟨noDefect, written⟩ | ⟨defect, met, failed⟩
  · exact ⟨fun _ => noDefect, fun _ => written⟩
  · simp [met, failed]

private theorem eq_error_of_failure {Text : Type} {text : Except EmitFault Text} {sites : List Site}
    (judged : failure text = verdict (firstDefect? sites)) {defect : Defect}
    (met : firstDefect? sites = some defect) : text = .error defect.fault := by
  rcases failure_cases judged with ⟨noDefect, -⟩ | ⟨other, otherMet, failed⟩
  · rw [met] at noDefect
    cases noDefect
  · rw [met] at otherMet
    cases otherMet
    exact failed

/-- A program has a text, by itself and as a file, exactly if no place with a defect is visited.
Otherwise both fail for the same reason, which is the first defect that is met. -/
theorem statements_firstDefect (program : Program) :
    ((∃ code, statements program = .ok code) ↔
      ∀ site ∈ Node.visitsAll program, site.defect? = none) ∧
    ((∃ code, file program = .ok code) ↔
      ∀ site ∈ Node.visitsAll program, site.defect? = none) ∧
    ∀ defect, (Node.visitsAll program).findSome? Site.defect? = some defect →
      ∃ fault,
        statements program = .error fault ∧ file program = .error fault ∧
        (Fault.emit fault).diagnostic = ⟨some .emit, 0, some defect.message, false⟩ := by
  refine ⟨exists_ok_iff_of_failure (failure_statements program),
    exists_ok_iff_of_failure (failure_file program), ?_⟩
  intro defect met
  exact ⟨defect.fault, eq_error_of_failure (failure_statements program) met,
    eq_error_of_failure (failure_file program) met, defect.diagnostic_fault⟩

-- Several defects at once: the missing condition is met before the missing block.
example :
    statements [.write [.identifier (utf8 "a") .origin] .origin,
      .branch .missing .missing .missing .origin, .expression .missing .origin] =
        .error .missingNode := by
  rfl

/-! ## Nodes that cannot be written -/

/-- Whether a node has no text. -/
def Unwritable (tree : Node) : Prop :=
  ∃ fault, node 0 tree = .error fault

private theorem exists_error_iff_failure {Text : Type} {text : Except EmitFault Text} :
    (∃ fault, text = .error fault) ↔ ∃ fault, failure text = .error fault := by
  cases text with
  | error fault => simp [failure, Except.map]
  | ok text => simp [failure, Except.map]

theorem exists_error_node_iff (depth : Nat) (tree : Node) :
    (∃ fault, node depth tree = .error fault) ↔ Unwritable tree := by
  have sameFailure : failure (node depth tree) = failure (node 0 tree) := by
    rw [failure_node, failure_node]
  rw [Unwritable, exists_error_iff_failure, sameFailure, ← exists_error_iff_failure]

/-- Nodes have no texts exactly if one of them has none. -/
theorem exists_error_nodes_iff (depth : Nat) (trees : List Node) :
    (∃ fault, nodes depth trees = .error fault) ↔ ∃ tree ∈ trees, Unwritable tree := by
  induction trees with
  | nil =>
      simp [nodes]
  | cons tree rest inductionHypothesis =>
      have split :
          (∃ other ∈ tree :: rest, Unwritable other) ↔
            (∃ fault, node depth tree = .error fault) ∨
              ∃ fault, nodes depth rest = .error fault := by
        rw [exists_error_node_iff, inductionHypothesis]
        simp
      rw [nodes, split]
      cases node depth tree with
      | error fault => simp [bind, Except.bind]
      | ok text =>
          cases nodes depth rest with
          | error fault => simp [bind, Except.bind]
          | ok texts => simp [bind, Except.bind, pure, Except.pure]

/-- A program has no text exactly if one of its statements has none. -/
theorem exists_error_statements_iff (program : Program) :
    (∃ fault, statements program = .error fault) ↔ ∃ tree ∈ program, Unwritable tree := by
  rw [← exists_error_nodes_iff 0, statements]
  cases nodes 0 program with
  | error fault => simp [Except.map]
  | ok texts => simp [Except.map]

theorem unwritable_expression (value : Node) (pos : Position) :
    Unwritable (.expression value pos) :=
  ⟨.unsupported .expression, by rw [node]⟩

/-- A branch has no text if a statement of its block has none. -/
theorem unwritable_branch {condition : Node} {body : List Node} {brace pos : Position}
    {tree : Node} (member : tree ∈ body) (unwritable : Unwritable tree) :
    Unwritable (.branch condition (.braced body brace) .missing pos) := by
  obtain ⟨fault, failed⟩ := (exists_error_nodes_iff 1 body).mpr ⟨tree, member, unwritable⟩
  rw [Unwritable, node, block, failed]
  cases node 0 condition with
  | error fault' => exact ⟨fault', rfl⟩
  | ok text => exact ⟨fault, rfl⟩

end JavaScript

end TriforceScript
