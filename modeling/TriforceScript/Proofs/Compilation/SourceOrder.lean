import TriforceScript.Proofs.Compilation.Parsed
import TriforceScript.Proofs.Tree.Order

/-!
# Source order

Every node of a parsed program has the place of one of its tokens.  Listed in order, the places
of a program are some of the places of its tokens, which grow strictly.  So the statements of
every list stand behind one another, and the parts of every statement do.
-/

namespace TriforceScript

namespace Grammar

/-! ## Expressions -/

private theorem Chain.places_linkNode {operator : Token.Kind} {Item : Type} {name : Bytes}
    {itemTokens : Item → List Token} {itemNode : Item → Node}
    (items : ∀ item, (itemNode item).places = (itemTokens item).map Token.pos)
    (left : Node) (links : List (Terminal operator × Item)) :
    (linkNode name itemNode left links).places =
      left.places ++ (linkTokens itemTokens links).map Token.pos := by
  induction links generalizing left with
  | nil =>
      exact (List.append_nil left.places).symm
  | cons link rest inductionHypothesis =>
      rw [linkNode, List.foldl_cons, ← linkNode, inductionHypothesis, Node.places, items]
      simp [linkTokens]

private theorem Chain.places_node {operator : Token.Kind} {Item : Type} {name : Bytes}
    {itemTokens : Item → List Token} {itemNode : Item → Node}
    (items : ∀ item, (itemNode item).places = (itemTokens item).map Token.pos)
    (chain : Chain operator Item) :
    (chain.node name itemNode).places = (chain.tokens itemTokens).map Token.pos := by
  rw [node, places_linkNode items, items, tokens, List.map_append]

private theorem Operand.places_node (operand : Operand) :
    operand.node.places = [operand.token].map Token.pos := by
  cases operand <;> rfl

/-- The leaves and operators of an expression stand at its tokens, one after another. -/
private theorem Expression.places_node (expression : Expression) :
    expression.node.places = expression.tokens.map Token.pos :=
  Chain.places_node (fun join => Chain.places_node Operand.places_node join) expression

private theorem Chain.rootedThroughout_node {operator : Token.Kind} {Item : Type} {name : Bytes}
    {itemNode : Item → Node} (items : ∀ item, (itemNode item).RootedThroughout)
    (chain : Chain operator Item) : (chain.node name itemNode).RootedThroughout := by
  refine linkNode_induction ?_ (items chain.first) (fun link _ => items link.2)
  intro left right pos rootedLeft rootedRight
  refine Node.rootedThroughout_of_children ⟨?_, ?_⟩ ?_
  · exact List.mem_append_right _ List.mem_cons_self
  · rintro value place ⟨⟩
  · intro child member
    simp only [Node.children, List.mem_cons, List.not_mem_nil, or_false] at member
    rcases member with rfl | rfl
    · exact rootedLeft
    · exact rootedRight

private theorem Operand.rootedThroughout_node (operand : Operand) :
    operand.node.RootedThroughout := by
  cases operand with
  | string terminal | name terminal =>
      refine Node.rootedThroughout_of_children ⟨List.mem_cons_self, ?_⟩ ?_
      · rintro value place ⟨⟩
      · rintro child ⟨⟩

private theorem Expression.rootedThroughout_node (expression : Expression) :
    expression.node.RootedThroughout :=
  Chain.rootedThroughout_node
    (fun join => Chain.rootedThroughout_node Operand.rootedThroughout_node join) expression

private theorem Arguments.places_sublist (arguments : Arguments) :
    (Node.placesAll arguments.nodes).Sublist (arguments.tokens.map Token.pos) := by
  have links (others : List (Terminal .comma × Expression)) :
      (Node.placesAll (others.map fun link => link.2.node)).Sublist
        ((Chain.linkTokens Expression.tokens others).map Token.pos) := by
    induction others with
    | nil =>
        exact List.nil_sublist _
    | cons link rest inductionHypothesis =>
        rw [List.map_cons, Node.placesAll, Expression.places_node, Chain.linkTokens,
          List.flatMap_cons, ← Chain.linkTokens, List.cons_append, List.map_cons, List.map_append]
        exact (inductionHypothesis.append_left _).cons _
  cases arguments with
  | none =>
      exact List.nil_sublist _
  | some chain =>
      rw [nodes, Node.placesAll, Expression.places_node, tokens, Chain.tokens, List.map_append]
      exact (links chain.rest).append_left _

private theorem Arguments.rootedThroughout_nodes (arguments : Arguments) :
    ∀ argument ∈ arguments.nodes, argument.RootedThroughout := by
  intro argument member
  cases arguments with
  | none =>
      cases member
  | some chain =>
      rcases List.mem_cons.mp member with rfl | inRest
      · exact chain.first.rootedThroughout_node
      · obtain ⟨link, -, rfl⟩ := List.mem_map.mp inRest
        exact link.2.rootedThroughout_node

/-! ## Statements -/

mutual

/-- The places of a statement are some of those of its tokens, in their order. -/
theorem Statement.places_sublist (statement : Statement) :
    statement.node.places.Sublist (statement.tokens.map Token.pos) := by
  match statement with
  | .comment _ =>
      exact List.Sublist.refl _
  | .reassignment name mark value _ | .assignment name mark value =>
      rw [node, Node.places, value.places_node, tokens, List.map_cons, List.map_cons]
      exact (List.sublist_cons_self _ _).cons_cons _
  | .declaration name mark left type right arrow value =>
      rw [node, Node.places, value.places_node, tokens]
      have behindMark :
          (value.tokens.map Token.pos).Sublist
            ((mark.token :: left.token :: type.token :: right.token :: arrow.token ::
              value.tokens).map Token.pos) :=
        (List.sublist_append_right
          [mark.token, left.token, type.token, right.token, arrow.token] value.tokens).map _
      exact behindMark.cons_cons name.token.pos
  | .branch lead word arrow condition doubleArrow left body right =>
      have inBody := Statement.places_allNodes_sublist body
      have behindBrace :
          (left.token.pos :: Node.placesAll (allNodes body)).Sublist
            ((doubleArrow.token :: left.token :: allTokens body ++ [right.token]).map Token.pos) := by
        rw [List.map_append]
        exact ((inBody.cons_cons left.token.pos).cons doubleArrow.token.pos).trans
          (List.sublist_append_left _ _)
      have behindWord :
          (word.token.pos ::
              (condition.node.places ++ left.token.pos :: Node.placesAll (allNodes body))).Sublist
            ((word.token :: arrow.token :: condition.tokens ++
              doubleArrow.token :: left.token :: allTokens body ++ [right.token]).map
                Token.pos) := by
        rw [condition.places_node, List.append_assoc, List.map_append]
        exact ((behindBrace.append_left (condition.tokens.map Token.pos)).cons _).cons_cons _
      rw [node, Node.places, Block.places, Block.places, List.append_nil, tokens,
        List.append_assoc, List.append_assoc, List.map_append, ← List.append_assoc]
      exact behindWord.trans (List.sublist_append_right _ _)
  | .write lead word left arguments right =>
      have behindWord :
          (word.token.pos :: Node.placesAll arguments.nodes).Sublist
            ((word.token :: left.token :: arguments.tokens ++ [right.token]).map Token.pos) := by
        rw [List.map_append]
        exact ((arguments.places_sublist.cons left.token.pos).cons_cons word.token.pos).trans
          (List.sublist_append_left _ _)
      rw [node, Node.places, tokens, List.append_assoc, List.map_append]
      exact behindWord.trans (List.sublist_append_right _ _)
  | .expression lead value _ =>
      rw [node, Node.places, value.places_node, tokens, List.map_append]
      exact List.sublist_append_right _ _

private theorem Statement.places_allNodes_sublist (statements : List Statement) :
    (Node.placesAll (allNodes statements)).Sublist ((allTokens statements).map Token.pos) := by
  match statements with
  | [] =>
      exact List.nil_sublist _
  | statement :: rest =>
      rw [allNodes, Node.placesAll, allTokens, List.map_append]
      exact statement.places_sublist.append (Statement.places_allNodes_sublist rest)

end

mutual

theorem Statement.rootedThroughout_node (statement : Statement) :
    statement.node.RootedThroughout := by
  match statement with
  | .comment _ =>
      refine Node.rootedThroughout_of_children ⟨List.mem_cons_self, ?_⟩ ?_
      · rintro value place ⟨⟩
      · rintro child ⟨⟩
  | .reassignment _ _ value _ | .declaration _ _ _ _ _ _ value | .assignment _ _ value =>
      refine Node.rootedThroughout_of_children ⟨List.mem_cons_self, ?_⟩ ?_
      · rintro other place ⟨⟩
      · intro child member
        rw [List.mem_singleton.mp member]
        exact value.rootedThroughout_node
  | .branch _ _ _ condition _ _ body _ =>
      refine Node.rootedThroughout_of_children ⟨List.mem_cons_self, ?_⟩ ?_
      · rintro other place ⟨⟩
      · intro child member
        rw [node, Node.children, Block.statements, Block.statements, List.append_nil] at member
        rcases List.mem_cons.mp member with rfl | inBody
        · exact condition.rootedThroughout_node
        · exact Statement.rootedThroughout_allNodes body child inBody
  | .write _ _ _ arguments _ =>
      refine Node.rootedThroughout_of_children ⟨List.mem_cons_self, ?_⟩ ?_
      · rintro other place ⟨⟩
      · exact arguments.rootedThroughout_nodes
  | .expression _ value _ =>
      refine Node.rootedThroughout_of_children ⟨value.rootedThroughout_node.rooted.own, ?_⟩ ?_
      · rintro other place ⟨⟩
        rfl
      · intro child member
        rw [List.mem_singleton.mp member]
        exact value.rootedThroughout_node

private theorem Statement.rootedThroughout_allNodes (statements : List Statement) :
    ∀ tree ∈ allNodes statements, tree.RootedThroughout := by
  match statements with
  | [] =>
      rintro tree ⟨⟩
  | statement :: rest =>
      rw [allNodes, List.forall_mem_cons]
      exact ⟨statement.rootedThroughout_node, Statement.rootedThroughout_allNodes rest⟩

end

end Grammar

/-! ## Programs of source texts -/

/-- The places of a parsed program are those of tokens and follow the source.  In every list of
statements each stands behind all places in those before it.  A branch, which always has a block
and nothing else, stands in front of its condition, this in front of its block, and the block in
front of all that is in it.  Leaves and operators of expressions stand one behind another, and
every other statement stands in front of its expressions. -/
theorem parse_follows_source {source : Bytes} {program : Program}
    (parsed : (parse source).result = .ok program) :
    ∃ tokens,
      scan source = .ok tokens ∧ program.WellFormed ∧ Node.InOrder program ∧
      ∀ statement ∈ program,
        (∀ place, statement.Holds place → ∃ token ∈ tokens, token.pos = place) ∧
        ∀ part : Node, part.Within statement → part.Ordered := by
  have wellFormed := wellFormed_of_parse parsed
  obtain ⟨lexemes, cuts, outcome⟩ := parse_eq_ok_iff.mp parsed
  obtain ⟨derivation, derived, rfl⟩ := Grammar.exists_derivation outcome
  have rooted := Grammar.Statement.rootedThroughout_allNodes derivation
  have listed :
      (Node.placesAll derivation.program).Sublist
        ((Lexeme.tokens .start lexemes).map Token.pos) := by
    rw [← derived]
    exact Grammar.Statement.places_allNodes_sublist derivation
  have grows : (Node.placesAll derivation.program).Pairwise Position.Before :=
    (List.pairwise_map.mpr (cuts.before_tokens .start).2).sublist listed
  refine ⟨_, cuts.scan_eq_ok, wellFormed, Node.inOrder_of_pairwise rooted grows, ?_⟩
  intro statement member
  have isListed := Node.places_sublist_placesAll member
  constructor
  · intro place holds
    have isPlace := (isListed.trans listed).subset (holds.mem_places (rooted statement member))
    obtain ⟨token, inSource, isPos⟩ := List.mem_map.mp isPlace
    exact ⟨token, List.mem_append_left _ inSource, isPos⟩
  · intro part within
    exact Node.ordered_of_pairwise ((rooted statement member).within within)
      (grows.sublist (within.places_sublist.trans isListed))

/-- A branch with an expression by itself in its block, behind a name that is left out, and an
output behind the branch. -/
def layeredSource : Bytes :=
  utf8 "if -> x => \x7b\n q \"a\" -> y == z\n\x7d write(x)"

/-- The program of `layeredSource`.  The expression by itself stands at its last operator. -/
def layeredProgram : Program :=
  [.branch (.identifier (utf8 "x") ⟨1, 8⟩)
      (.braced
        [.expression
          (.binary (utf8 "==")
            (.binary (utf8 "->") (.string (utf8 "a") ⟨2, 7⟩) (.identifier (utf8 "y") ⟨2, 12⟩)
              ⟨2, 10⟩)
            (.identifier (utf8 "z") ⟨2, 17⟩) ⟨2, 15⟩)
          ⟨2, 15⟩]
        ⟨1, 13⟩)
      .missing ⟨1, 3⟩,
    .write [.identifier (utf8 "x") ⟨3, 10⟩] ⟨3, 8⟩]

theorem parse_follows_layeredSource :
    (parse layeredSource).result = .ok layeredProgram ∧
    ∃ tokens,
      scan layeredSource = .ok tokens ∧ layeredProgram.WellFormed ∧
      Node.InOrder layeredProgram ∧
      ∀ statement ∈ layeredProgram,
        (∀ place, statement.Holds place → ∃ token ∈ tokens, token.pos = place) ∧
        ∀ part : Node, part.Within statement → part.Ordered := by
  have parsed : (parse layeredSource).result = .ok layeredProgram := rfl
  exact ⟨parsed, parse_follows_source parsed⟩

end TriforceScript
