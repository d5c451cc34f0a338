import TriforceScript.Proofs.Grammar.Derivation
import TriforceScript.Proofs.JavaScript.Failure

/-!
# Texts of derived trees

Every derived expression has a text.  So the only derived statements that may have none
are expressions by themselves and the branches around them.
-/

namespace TriforceScript

namespace JavaScript

/-! ## Parts of nodes -/

private theorem exists_error_bind_pure {First Second : Type} {first : Except EmitFault First}
    {combine : First → Second} :
    (∃ fault, (first >>= fun text => pure (combine text)) = .error fault) ↔
      ∃ fault, first = .error fault := by
  cases first with
  | error fault => simp [bind, Except.bind]
  | ok text => simp [bind, Except.bind, pure, Except.pure]

theorem unwritable_declaration_iff {name type : Bytes} {value : Node} {pos : Position} :
    Unwritable (.declaration name type value pos) ↔ Unwritable value := by
  rw [Unwritable, node]
  exact exists_error_bind_pure

theorem unwritable_assignment_iff {name : Bytes} {value : Node} {pos : Position} :
    Unwritable (.assignment name value pos) ↔ Unwritable value := by
  rw [Unwritable, node]
  exact exists_error_bind_pure

theorem unwritable_write_iff {arguments : List Node} {pos : Position} :
    Unwritable (.write arguments pos) ↔ ∃ argument ∈ arguments, Unwritable argument := by
  rw [Unwritable, node, ← exists_error_nodes_iff 0]
  exact exists_error_bind_pure

theorem unwritable_binary_iff {operator : Bytes} {left right : Node} {pos : Position} :
    Unwritable (.binary operator left right pos) ↔ Unwritable left ∨ Unwritable right := by
  rw [Unwritable, Unwritable, Unwritable, node]
  cases node 0 left with
  | error fault => simp [bind, Except.bind]
  | ok text =>
      cases node 0 right with
      | error fault => simp [bind, Except.bind]
      | ok text' => simp [bind, Except.bind, pure, Except.pure]

end JavaScript

namespace Grammar

open JavaScript (Unwritable)

/-! ## Expressions -/

private theorem Operand.writable (operand : Operand) : ¬ Unwritable operand.node := by
  rintro ⟨fault, failed⟩
  cases operand with
  | string terminal =>
      rw [Operand.node, JavaScript.node] at failed
      cases failed
  | name terminal =>
      rw [Operand.node, JavaScript.node] at failed
      cases failed

private theorem Chain.writable_linkNode {operator : Token.Kind} {Item : Type} {name : Bytes}
    {itemNode : Item → Node} (items : ∀ item, ¬ Unwritable (itemNode item)) {left : Node}
    (leftWritable : ¬ Unwritable left) (links : List (Terminal operator × Item)) :
    ¬ Unwritable (linkNode name itemNode left links) := by
  induction links generalizing left with
  | nil =>
      exact leftWritable
  | cons link rest inductionHypothesis =>
      apply inductionHypothesis
      intro unwritable
      rcases JavaScript.unwritable_binary_iff.mp unwritable with inLeft | inItem
      · exact leftWritable inLeft
      · exact items link.2 inItem

private theorem Join.writable (join : Join) : ¬ Unwritable (Join.node join) :=
  Chain.writable_linkNode Operand.writable (Operand.writable join.first) join.rest

private theorem Expression.writable (expression : Expression) : ¬ Unwritable expression.node :=
  Chain.writable_linkNode Join.writable (Join.writable expression.first) expression.rest

private theorem Arguments.writable (arguments : Arguments) {argument : Node}
    (member : argument ∈ arguments.nodes) : ¬ Unwritable argument := by
  cases arguments with
  | none =>
      cases member
  | some chain =>
      rcases List.mem_cons.mp member with rfl | inRest
      · exact chain.first.writable
      · obtain ⟨link, -, rfl⟩ := List.mem_map.mp inRest
        exact link.2.writable

/-! ## Statements -/

/-- A derived statement without a text is an expression by itself or a branch. -/
theorem Statement.kind?_of_unwritable {statement : Statement}
    (unwritable : Unwritable statement.node) :
    statement.node.kind? = some .expression ∨ statement.node.kind? = some .branch := by
  cases statement with
  | comment text =>
      obtain ⟨fault, failed⟩ := unwritable
      rw [Statement.node, JavaScript.node] at failed
      cases failed
  | reassignment name mark value named =>
      rw [Statement.node, JavaScript.unwritable_assignment_iff] at unwritable
      exact (value.writable unwritable).elim
  | declaration name mark left type right arrow value =>
      rw [Statement.node, JavaScript.unwritable_declaration_iff] at unwritable
      exact (value.writable unwritable).elim
  | assignment name arrow value =>
      rw [Statement.node, JavaScript.unwritable_assignment_iff] at unwritable
      exact (value.writable unwritable).elim
  | branch lead word arrow condition doubleArrow left body right =>
      rw [Statement.node]
      exact .inr rfl
  | write lead word left arguments right =>
      rw [Statement.node, JavaScript.unwritable_write_iff] at unwritable
      obtain ⟨argument, member, unwritableArgument⟩ := unwritable
      exact (arguments.writable member unwritableArgument).elim
  | expression lead value led =>
      rw [Statement.node]
      exact .inl rfl

theorem Statement.exists_of_mem_allNodes {statements : List Statement} {tree : Node}
    (member : tree ∈ allNodes statements) : ∃ statement, Statement.node statement = tree := by
  induction statements with
  | nil =>
      cases member
  | cons statement rest inductionHypothesis =>
      rcases List.mem_cons.mp member with rfl | inRest
      · exact ⟨statement, rfl⟩
      · exact inductionHypothesis inRest

end Grammar

end TriforceScript
