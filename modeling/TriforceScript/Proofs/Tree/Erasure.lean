import TriforceScript.JavaScript

/-!
# Trees without places

Two trees are the same up to places if they are equal once all places are erased.  The
text of a tree does not depend on its places.
-/

namespace TriforceScript

mutual

/-- A tree with all its places erased. -/
def Node.erase : Node → Node
  | .comment text _ => .comment text .origin
  | .declaration name type value _ => .declaration name type value.erase .origin
  | .assignment name value _ => .assignment name value.erase .origin
  | .branch condition body otherwise _ =>
      .branch condition.erase body.erase otherwise.erase .origin
  | .block content => .block content.erase
  | .write arguments _ => .write (Node.eraseAll arguments) .origin
  | .expression value _ => .expression value.erase .origin
  | .binary operator left right _ => .binary operator left.erase right.erase .origin
  | .identifier name _ => .identifier name .origin
  | .string value _ => .string value .origin
  | .missing => .missing

/-- A block with all its places erased. -/
def Block.erase : Block → Block
  | .braced statements _ => .braced (Node.eraseAll statements) .origin
  | .missing => .missing

/-- Trees with all their places erased. -/
def Node.eraseAll : List Node → List Node
  | [] => []
  | tree :: rest => tree.erase :: Node.eraseAll rest

end

theorem Node.eraseAll_eq_map (trees : List Node) : eraseAll trees = trees.map erase := by
  induction trees with
  | nil =>
      rfl
  | cons tree rest inductionHypothesis =>
      rw [eraseAll, inductionHypothesis, List.map_cons]

theorem Node.pos_erase (tree : Node) : tree.erase.pos = .origin := by
  cases tree with
  | block content =>
      rw [erase]
      cases content <;> rfl
  | _ =>
      rw [erase]
      rfl

private theorem Block.isMissing_erase (content : Block) :
    content.erase.isMissing = content.isMissing := by
  cases content <;> rfl

namespace JavaScript

mutual

theorem node_erase (depth : Nat) (tree : Node) : node depth tree.erase = node depth tree := by
  match tree with
  | .comment _ _ | .expression _ _ | .identifier _ _ | .string _ _ =>
      rw [Node.erase, node, node]
  | .missing =>
      rw [Node.erase]
  | .declaration _ _ value _ =>
      rw [Node.erase, node, node, node_erase 0 value]
  | .assignment _ value _ =>
      rw [Node.erase, node, node, node_erase 0 value]
  | .branch condition body otherwise _ =>
      rw [Node.erase, node, node, node_erase 0 condition, block_erase depth body,
        block_erase depth otherwise, otherwise.isMissing_erase]
  | .block content =>
      rw [Node.erase, node, node, block_erase depth content]
  | .write arguments _ =>
      rw [Node.erase, node, node, nodes_eraseAll 0 arguments]
  | .binary _ left right _ =>
      rw [Node.erase, node, node, node_erase 0 left, node_erase 0 right]

theorem block_erase (depth : Nat) (content : Block) :
    block depth content.erase = block depth content := by
  match content with
  | .braced statements _ =>
      rw [Block.erase, block, block, nodes_eraseAll (depth + 1) statements]
  | .missing =>
      rw [Block.erase]

private theorem nodes_eraseAll (depth : Nat) (trees : List Node) :
    nodes depth (Node.eraseAll trees) = nodes depth trees := by
  match trees with
  | [] =>
      rw [Node.eraseAll]
  | tree :: rest =>
      rw [Node.eraseAll, nodes, nodes, node_erase depth tree, nodes_eraseAll depth rest]

end

/-- The text of a program does not depend on its places. -/
theorem statements_erase (program : Program) :
    statements (program.map Node.erase) = statements program := by
  rw [← Node.eraseAll_eq_map, statements, statements, nodes_eraseAll]

/-- Programs that are the same up to places have the same text. -/
theorem statements_congr {first second : Program}
    (same : first.map Node.erase = second.map Node.erase) :
    statements first = statements second := by
  rw [← statements_erase first, same, statements_erase]

end JavaScript

end TriforceScript
