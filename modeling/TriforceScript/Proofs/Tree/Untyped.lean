import TriforceScript.Proofs.Tree.Erasure

/-!
# Trees without types

What a declaration says about its type has no part in the text of a tree.
-/

namespace TriforceScript

mutual

/-- A tree with the types of all its declarations erased. -/
def Node.untyped : Node → Node
  | .comment text pos => .comment text pos
  | .declaration name _ value pos => .declaration name [] value.untyped pos
  | .assignment name value pos => .assignment name value.untyped pos
  | .branch condition body otherwise pos =>
      .branch condition.untyped body.untyped otherwise.untyped pos
  | .block content => .block content.untyped
  | .write arguments pos => .write (Node.untypedAll arguments) pos
  | .expression value pos => .expression value.untyped pos
  | .binary operator left right pos => .binary operator left.untyped right.untyped pos
  | .identifier name pos => .identifier name pos
  | .string value pos => .string value pos
  | .missing => .missing

/-- A block with the types of all its declarations erased. -/
def Block.untyped : Block → Block
  | .braced statements pos => .braced (Node.untypedAll statements) pos
  | .missing => .missing

/-- Trees with the types of all their declarations erased. -/
def Node.untypedAll : List Node → List Node
  | [] => []
  | tree :: rest => tree.untyped :: Node.untypedAll rest

end

theorem Node.untypedAll_eq_map (trees : List Node) : untypedAll trees = trees.map untyped := by
  induction trees with
  | nil =>
      rfl
  | cons tree rest inductionHypothesis =>
      rw [untypedAll, inductionHypothesis, List.map_cons]

private theorem Block.isMissing_untyped (content : Block) :
    content.untyped.isMissing = content.isMissing := by
  cases content <;> rfl

/-- A tree with all its places and the types of all its declarations erased. -/
def Node.bare (tree : Node) : Node :=
  tree.erase.untyped

theorem Node.bare_branch {condition : Node} {body : List Node} {brace pos : Position} :
    (Node.branch condition (.braced body brace) .missing pos).bare =
      .branch condition.bare (.braced (body.map bare) .origin) .missing .origin := by
  rw [bare, erase, untyped, Block.erase, Block.untyped, Block.erase, Block.untyped,
    eraseAll_eq_map, untypedAll_eq_map, List.map_map]
  rfl

theorem Node.bare_write {arguments : List Node} {pos : Position} :
    (Node.write arguments pos).bare = .write (arguments.map bare) .origin := by
  rw [bare, erase, untyped, eraseAll_eq_map, untypedAll_eq_map, List.map_map]
  rfl

namespace JavaScript

mutual

theorem node_untyped (depth : Nat) (tree : Node) : node depth tree.untyped = node depth tree := by
  match tree with
  | .comment _ _ | .identifier _ _ | .string _ _ | .missing =>
      rw [Node.untyped]
  | .expression _ _ =>
      rw [Node.untyped, node, node]
  | .declaration _ _ value _ =>
      rw [Node.untyped, node, node, node_untyped 0 value]
  | .assignment _ value _ =>
      rw [Node.untyped, node, node, node_untyped 0 value]
  | .branch condition body otherwise _ =>
      rw [Node.untyped, node, node, node_untyped 0 condition, block_untyped depth body,
        block_untyped depth otherwise, otherwise.isMissing_untyped]
  | .block content =>
      rw [Node.untyped, node, node, block_untyped depth content]
  | .write arguments _ =>
      rw [Node.untyped, node, node, nodes_untypedAll 0 arguments]
  | .binary _ left right _ =>
      rw [Node.untyped, node, node, node_untyped 0 left, node_untyped 0 right]

theorem block_untyped (depth : Nat) (content : Block) :
    block depth content.untyped = block depth content := by
  match content with
  | .braced statements _ =>
      rw [Block.untyped, block, block, nodes_untypedAll (depth + 1) statements]
  | .missing =>
      rw [Block.untyped]

private theorem nodes_untypedAll (depth : Nat) (trees : List Node) :
    nodes depth (Node.untypedAll trees) = nodes depth trees := by
  match trees with
  | [] =>
      rw [Node.untypedAll]
  | tree :: rest =>
      rw [Node.untypedAll, nodes, nodes, node_untyped depth tree, nodes_untypedAll depth rest]

end

/-- The text of a program depends neither on its places nor on its types. -/
theorem statements_bare (program : Program) :
    statements (program.map Node.bare) = statements program := by
  have steps : program.map Node.bare = Node.untypedAll (program.map Node.erase) := by
    rw [Node.untypedAll_eq_map, List.map_map]
    rfl
  rw [steps, statements, nodes_untypedAll, ← statements, statements_erase]

end JavaScript

end TriforceScript
