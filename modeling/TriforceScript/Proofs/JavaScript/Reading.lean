import TriforceScript.Proofs.Compilation.Parsed
import TriforceScript.Proofs.JavaScript.Fragment

/-!
# Reading generated expressions

The text of an expression holds no parentheses.  Read as JavaScript it still has the
grouping of the tree, because the two languages agree on how operators bind.
-/

namespace TriforceScript

open Node (IsOperand IsJoin IsExpression IsStatement)

namespace JavaScript

/-- The term that an expression stands for: what is joined has a blank between it. -/
def term? : Node → Option Term
  | .identifier name _ => some (.name name)
  | .string value _ => some (.string value)
  | .binary operator left right _ => do
      let left ← term? left
      let right ← term? right
      if operator = utf8 "->" then
        some (.sum (.sum left (.string (utf8 " "))) right)
      else if operator = utf8 "==" then
        some (.strictEqual left right)
      else
        none
  | _ => none

private theorem term?_join {left right : Node} {pos : Position} {leftTerm rightTerm : Term}
    (isLeft : term? left = some leftTerm) (isRight : term? right = some rightTerm) :
    term? (.binary (utf8 "->") left right pos) =
      some (.sum (.sum leftTerm (.string (utf8 " "))) rightTerm) := by
  rw [term?, isLeft, isRight]
  rfl

private theorem term?_compare {left right : Node} {pos : Position} {leftTerm rightTerm : Term}
    (isLeft : term? left = some leftTerm) (isRight : term? right = some rightTerm) :
    term? (.binary (utf8 "==") left right pos) = some (.strictEqual leftTerm rightTerm) := by
  rw [term?, isLeft, isRight]
  rfl

/-- `Written Grammar tree` means that `tree` has a text, and the symbols of the text are read
by `Grammar` as the term that `tree` stands for. -/
def Written (Grammar : List Symbol → Term → Prop) (tree : Node) : Prop :=
  ∃ text spelling term,
    node 0 tree = .ok text ∧ Spells text.bytes spelling ∧
    term? tree = some term ∧ Grammar spelling term

private theorem written_operand {tree : Node} (isOperand : IsOperand tree) :
    Written Term.Operand tree := by
  cases isOperand with
  | @identifier name pos isName =>
      refine ⟨.leaf name, [.name name], .name name, by rw [node], ?_, by rw [term?], .name name⟩
      rw [Rope.bytes_leaf]
      exact spells_name isName.1
  | @string value pos noQuote =>
      refine ⟨.leaf (Bytes.quote :: value) ++ .leaf [Bytes.quote], [.string value], .string value,
        by rw [node], ?_, by rw [term?], .string value⟩
      rw [Rope.bytes_append, Rope.bytes_leaf, Rope.bytes_leaf]
      exact spells_string noQuote

private theorem node_binary {operator : Bytes} {left right : Node} {leftText rightText : Rope}
    (isLeft : node 0 left = .ok leftText) (isRight : node 0 right = .ok rightText) (pos : Position) :
    node 0 (.binary operator left right pos) = .ok (infixed operator leftText rightText) := by
  rw [node, isLeft, isRight]
  rfl

private theorem written_join {tree : Node} (isJoin : IsJoin tree) : Written Term.Sum tree := by
  induction isJoin with
  | operand isOperand =>
      obtain ⟨text, spelling, term, isText, spells, isTerm, reads⟩ := written_operand isOperand
      exact ⟨text, spelling, term, isText, spells, isTerm, .operand reads⟩
  | @join left right pos _ isOperand inductionHypothesis =>
      obtain ⟨leftText, leftSpelling, leftTerm, isLeftText, spellsLeft, isLeftTerm, readsLeft⟩ :=
        inductionHypothesis
      obtain ⟨rightText, rightSpelling, rightTerm, isRightText, spellsRight, isRightTerm,
        readsRight⟩ := written_operand isOperand
      refine ⟨_, _, _, node_binary isLeftText isRightText pos, ?_,
        term?_join isLeftTerm isRightTerm,
        .sum (.sum readsLeft (.string (utf8 " "))) readsRight⟩
      have spells := spellsLeft.separated separates_joint spellsRight
      rw [infixed, if_pos rfl]
      simpa using spells

theorem written_expression {tree : Node} (isExpression : IsExpression tree) :
    Written Term.Comparison tree := by
  induction isExpression with
  | join isJoin =>
      obtain ⟨text, spelling, term, isText, spells, isTerm, reads⟩ := written_join isJoin
      exact ⟨text, spelling, term, isText, spells, isTerm, .sum reads⟩
  | @compare left right pos _ isJoin inductionHypothesis =>
      obtain ⟨leftText, leftSpelling, leftTerm, isLeftText, spellsLeft, isLeftTerm, readsLeft⟩ :=
        inductionHypothesis
      obtain ⟨rightText, rightSpelling, rightTerm, isRightText, spellsRight, isRightTerm,
        readsRight⟩ := written_join isJoin
      refine ⟨_, _, _, node_binary isLeftText isRightText pos, ?_,
        term?_compare isLeftTerm isRightTerm, .strictEqual readsLeft readsRight⟩
      have spells := spellsLeft.separated separates_equality spellsRight
      rw [infixed, if_neg (by decide), if_pos rfl]
      simpa using spells

private theorem symbols_nil : symbols [] = ([], []) :=
  symbols_of_front?_eq_none rfl

/-- The text of an expression is read as the term that the expression stands for, and as no
other one. -/
theorem reads_iff_of_isExpression {tree : Node} (isExpression : IsExpression tree) :
    ∃ text term,
      node 0 tree = .ok text ∧ term? tree = some term ∧
      ∀ other, Reads text.bytes other ↔ other = term := by
  obtain ⟨text, spelling, term, isText, spells, isTerm, reads⟩ := written_expression isExpression
  have readsTerm : Reads text.bytes term := by
    have spelled := spells [] (by simp [Breaks])
    rw [List.append_nil, symbols_nil, List.append_nil] at spelled
    exact ⟨spelling, spelled, reads⟩
  refine ⟨text, term, isText, isTerm, fun other => ⟨fun readsOther => ?_, ?_⟩⟩
  · exact readsOther.unique readsTerm
  · rintro rfl
    exact readsTerm

end JavaScript

/-- Every expression of a parsed program, at any depth, has a text, and the text is read as the
term that the expression stands for. -/
theorem reads_iff_of_parse {source : Bytes} {program : Program}
    (parsed : (parse source).result = .ok program) {statement tree : Node}
    (member : statement ∈ program) (within : tree.Within statement)
    (isValue : tree.kind? ∈ [some .identifier, some .string, some .binary]) :
    ∃ text term,
      JavaScript.node 0 tree = .ok text ∧ JavaScript.term? tree = some term ∧
      ∀ other, JavaScript.Reads text.bytes other ↔ other = term := by
  have isStatement := wellFormed_of_parse parsed statement member
  rcases within.isStatement_or_isExpression (.inl isStatement) with impossible | isExpression
  · exact (impossible.kind?_notMem isValue).elim
  · exact JavaScript.reads_iff_of_isExpression isExpression

/-- A comparison of a join, which holds the text of an operator. -/
def quotedPlus : Node :=
  .binary (utf8 "==")
    (.binary (utf8 "->") (.identifier (utf8 "a") ⟨1, 7⟩) (.string (utf8 " + ") ⟨1, 16⟩) ⟨1, 10⟩)
    (.identifier (utf8 "b") ⟨1, 21⟩) ⟨1, 19⟩

theorem reads_iff_quotedPlus :
    (parse (utf8 "x -> a -> \" + \" == b")).result =
      .ok [.assignment (utf8 "x") quotedPlus ⟨1, 2⟩] ∧
    ∃ text,
      JavaScript.node 0 quotedPlus = .ok text ∧
      ∀ other, JavaScript.Reads text.bytes other ↔
        other =
          .strictEqual
            (.sum (.sum (.name (utf8 "a")) (.string (utf8 " "))) (.string (utf8 " + ")))
            (.name (utf8 "b")) := by
  have parsed :
      (parse (utf8 "x -> a -> \" + \" == b")).result =
        .ok [.assignment (utf8 "x") quotedPlus ⟨1, 2⟩] :=
    rfl
  have within : quotedPlus.Within (.assignment (utf8 "x") quotedPlus ⟨1, 2⟩) :=
    .child (List.mem_singleton_self _) (.self _)
  obtain ⟨text, term, isText, isTerm, reads⟩ :=
    reads_iff_of_parse parsed (List.mem_singleton_self _) within (by decide)
  cases isTerm
  exact ⟨parsed, text, isText, reads⟩

end TriforceScript
