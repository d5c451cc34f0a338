import TriforceScript.Proofs.Scan.Positions
import TriforceScript.Proofs.Tree.Shape

/-!
# The order of places in trees

The places in a tree can be listed in the order in which they stand in a source text.  If this
list grows strictly, then so do all lists of the parts of the tree, since they are sublists of
it, and the parts of every statement stand behind one another.
-/

namespace TriforceScript

/-! ## Places in the order of the source -/

mutual

/-- The places of a tree in the order of the source, with that of an operator between those of
its operands.  An expression by itself is at the place of its value. -/
def Node.places : Node → List Position
  | .comment _ pos | .identifier _ pos | .string _ pos => [pos]
  | .declaration _ _ value pos | .assignment _ value pos => pos :: value.places
  | .branch condition body otherwise pos =>
      pos :: (condition.places ++ (body.places ++ otherwise.places))
  | .block content => content.places
  | .write arguments pos => pos :: Node.placesAll arguments
  | .expression value _ => value.places
  | .binary _ left right pos => left.places ++ pos :: right.places
  | .missing => []

def Block.places : Block → List Position
  | .braced statements pos => pos :: Node.placesAll statements
  | .missing => []

def Node.placesAll : List Node → List Position
  | [] => []
  | tree :: rest => tree.places ++ Node.placesAll rest

end

private theorem Block.placesAll_statements_sublist (content : Block) :
    (Node.placesAll content.statements).Sublist content.places := by
  cases content with
  | braced statements pos => exact List.sublist_cons_self _ _
  | missing => exact List.nil_sublist _

namespace Node

theorem placesAll_append (first second : List Node) :
    placesAll (first ++ second) = placesAll first ++ placesAll second := by
  induction first with
  | nil =>
      rfl
  | cons tree rest inductionHypothesis =>
      rw [List.cons_append, placesAll, placesAll, inductionHypothesis, List.append_assoc]

theorem places_sublist_placesAll {tree : Node} {trees : List Node} (member : tree ∈ trees) :
    tree.places.Sublist (placesAll trees) := by
  induction trees with
  | nil =>
      cases member
  | cons first rest inductionHypothesis =>
      rw [placesAll]
      rcases List.mem_cons.mp member with rfl | inRest
      · exact List.sublist_append_left _ _
      · exact (inductionHypothesis inRest).trans (List.sublist_append_right _ _)

/-- The children of a tree have their places among those of the tree, in the same order. -/
private theorem placesAll_children_sublist (tree : Node) :
    (placesAll tree.children).Sublist tree.places := by
  have alone (child : Node) : placesAll [child] = child.places := by
    rw [placesAll, placesAll, List.append_nil]
  cases tree with
  | comment _ _ | identifier _ _ | string _ _ | missing =>
      exact List.nil_sublist _
  | declaration _ _ value pos | assignment _ value pos =>
      rw [children, alone, places]
      exact List.sublist_cons_self _ _
  | expression value pos =>
      rw [children, alone, places]
  | branch condition body otherwise pos =>
      rw [children, placesAll, placesAll_append, places]
      have inBlocks := body.placesAll_statements_sublist.append
        otherwise.placesAll_statements_sublist
      exact (inBlocks.append_left condition.places).cons pos
  | block content =>
      exact content.placesAll_statements_sublist
  | write arguments pos =>
      exact List.sublist_cons_self _ _
  | binary _ left right pos =>
      rw [children, placesAll, alone, places]
      exact (List.sublist_cons_self pos right.places).append_left left.places

theorem Within.places_sublist {part tree : Node} (within : part.Within tree) :
    part.places.Sublist tree.places := by
  induction within with
  | self =>
      exact List.Sublist.refl _
  | @child child tree member _ inductionHypothesis =>
      exact inductionHypothesis.trans
        ((places_sublist_placesAll member).trans tree.placesAll_children_sublist)

/-! ## Places of nodes -/

/-- A place in a tree: that of some node in it, or that of the block of some branch in it. -/
inductive Holds (tree : Node) : Position → Prop
  | node {part : Node} : part.Within tree → Holds tree part.pos
  | brace {condition : Node} {statements : List Node} {brace : Position} {otherwise : Block}
      {pos : Position} :
      (Node.branch condition (.braced statements brace) otherwise pos).Within tree →
      Holds tree brace

/-- A node stands at one of its listed places, an expression by itself at that of its value. -/
structure Rooted (tree : Node) : Prop where
  own : tree.pos ∈ tree.places
  inherited : ∀ value pos, tree = .expression value pos → pos = value.pos

/-- All nodes of a tree stand at their listed places. -/
def RootedThroughout (tree : Node) : Prop :=
  ∀ part : Node, part.Within tree → part.Rooted

theorem RootedThroughout.rooted {tree : Node} (rooted : tree.RootedThroughout) : tree.Rooted :=
  rooted tree (.self tree)

private theorem RootedThroughout.child {tree child : Node} (rooted : tree.RootedThroughout)
    (member : child ∈ tree.children) : child.RootedThroughout :=
  fun part within => rooted part (.child member within)

theorem RootedThroughout.within {part tree : Node} (rooted : tree.RootedThroughout)
    (within : part.Within tree) : part.RootedThroughout := by
  induction within with
  | self => exact rooted
  | child member _ inductionHypothesis => exact inductionHypothesis (rooted.child member)

theorem rootedThroughout_of_children {tree : Node} (rooted : tree.Rooted)
    (children : ∀ child ∈ tree.children, child.RootedThroughout) : tree.RootedThroughout := by
  intro part within
  cases within with
  | self => exact rooted
  | child member within => exact children _ member part within

/-- Every place in a tree is one of those in order. -/
theorem Holds.mem_places {tree : Node} {place : Position} (rooted : tree.RootedThroughout)
    (holds : tree.Holds place) : place ∈ tree.places := by
  cases holds with
  | node within =>
      exact within.places_sublist.subset (rooted _ within).own
  | @brace condition statements _ otherwise pos within =>
      apply within.places_sublist.subset
      have inBlock : place ∈ (Block.braced statements place).places := List.mem_cons_self
      exact List.mem_cons_of_mem _
        (List.mem_append_right _ (List.mem_append_left _ inBlock))

/-! ## Order -/

/-- Each of some statements stands behind all places in those before it. -/
def InOrder (statements : List Node) : Prop :=
  statements.Pairwise fun first second => ∀ place, first.Holds place → place.Before second.pos

/-- The places of a node and of its parts are in the order of the source. -/
def Ordered : Node → Prop
  | .declaration _ _ value pos | .assignment _ value pos =>
      ∀ place, value.Holds place → pos.Before place
  | .write arguments pos =>
      ∀ argument ∈ arguments, ∀ place, argument.Holds place → pos.Before place
  | .branch condition (.braced statements brace) _ pos =>
      (∀ place, condition.Holds place → pos.Before place ∧ place.Before brace) ∧
      (∀ statement ∈ statements, ∀ place, statement.Holds place → brace.Before place) ∧
      InOrder statements
  | .expression value pos => pos = value.pos
  | .binary operator left right pos =>
      (Node.binary operator left right pos).places.Pairwise Position.Before
  | _ => True

theorem inOrder_of_pairwise {statements : List Node}
    (rooted : ∀ statement ∈ statements, statement.RootedThroughout)
    (grows : (placesAll statements).Pairwise Position.Before) : InOrder statements := by
  induction statements with
  | nil =>
      exact .nil
  | cons statement rest inductionHypothesis =>
      rw [placesAll, List.pairwise_append] at grows
      obtain ⟨-, growsRest, apart⟩ := grows
      rw [List.forall_mem_cons] at rooted
      refine .cons ?_ (inductionHypothesis rooted.2 growsRest)
      intro other member place holds
      have isOther : other.pos ∈ placesAll rest :=
        (places_sublist_placesAll member).subset (rooted.2 other member).rooted.own
      exact apart place (holds.mem_places rooted.1) other.pos isOther

/-- Where the listed places grow strictly, a node is in order. -/
theorem ordered_of_pairwise {tree : Node} (rooted : tree.RootedThroughout)
    (grows : tree.places.Pairwise Position.Before) : tree.Ordered := by
  cases tree with
  | comment _ _ | identifier _ _ | string _ _ | block _ | missing =>
      trivial
  | declaration _ _ value pos | assignment _ value pos =>
      intro place holds
      have isRooted : value.RootedThroughout := rooted.child List.mem_cons_self
      exact List.rel_of_pairwise_cons grows (holds.mem_places isRooted)
  | write arguments pos =>
      intro argument member place holds
      have isRooted : argument.RootedThroughout := rooted.child member
      exact List.rel_of_pairwise_cons grows
        ((places_sublist_placesAll member).subset (holds.mem_places isRooted))
  | expression value pos =>
      exact rooted.rooted.inherited value pos rfl
  | binary operator left right pos =>
      exact grows
  | branch condition body otherwise pos =>
      cases body with
      | missing =>
          trivial
      | braced statements brace =>
          rw [places, Block.places, List.pairwise_cons, List.pairwise_append,
            List.pairwise_append, List.pairwise_cons] at grows
          obtain ⟨behindWord, -, ⟨⟨behindBrace, growsInside⟩, -, -⟩, apart⟩ := grows
          have rootedInside : ∀ statement ∈ statements, statement.RootedThroughout :=
            fun statement member =>
              rooted.child (List.mem_cons_of_mem _ (List.mem_append_left _ member))
          refine ⟨?_, ?_, inOrder_of_pairwise rootedInside growsInside⟩
          · intro place holds
            have inCondition : place ∈ condition.places :=
              holds.mem_places (rooted.child List.mem_cons_self)
            exact ⟨behindWord place (List.mem_append_left _ inCondition),
              apart place inCondition brace (List.mem_append_left _ List.mem_cons_self)⟩
          · intro statement member place holds
            have inStatement := holds.mem_places (rootedInside statement member)
            exact behindBrace place ((places_sublist_placesAll member).subset inStatement)

end Node

end TriforceScript
