import TriforceScript.Proofs.Compilation.Composition
import TriforceScript.Proofs.JavaScript.Failure
import TriforceScript.Proofs.Text.Plain
import TriforceScript.Proofs.Tree.Shape

/-!
# Plain code

The code of a tree is plain if the texts in the tree are: nothing that is added to them could
start an escape sequence.
-/

namespace TriforceScript

namespace Node

/-- What a tree itself adds to its code, besides what its children add. -/
def text : Node → Bytes
  | .comment text _ => text
  | .declaration name _ _ _ => name
  | .assignment name _ _ => name
  | .binary operator _ _ _ => operator
  | .identifier name _ => name
  | .string value _ => value
  | .branch .. | .block _ | .write .. | .expression .. | .missing => []

/-- Whether all texts in a tree are plain.  Those of types do not matter. -/
inductive Plain : Node → Prop
  | intro {tree : Node} :
      tree.text.Plain → (∀ child ∈ tree.children, Plain child) → Plain tree

theorem plain_iff {tree : Node} :
    tree.Plain ↔ tree.text.Plain ∧ ∀ child ∈ tree.children, child.Plain := by
  constructor
  · rintro ⟨plainText, plainChildren⟩
    exact ⟨plainText, plainChildren⟩
  · rintro ⟨plainText, plainChildren⟩
    exact .intro plainText plainChildren

end Node

namespace JavaScript

private theorem plain_indent (depth : Nat) : (indent depth).Plain := by
  intro member
  cases List.eq_of_mem_replicate member

private theorem plain_separated {separator : Bytes} {ropes : List Rope}
    (plainSeparator : separator.Plain)
    (plain : ∀ rope ∈ ropes, rope.bytes.Plain) : (Rope.separated separator ropes).bytes.Plain := by
  cases ropes with
  | nil =>
      simp [Rope.separated]
  | cons first rest =>
      rw [Rope.separated, Rope.bytes_separatedFrom]
      simp_all

private theorem plain_infixed {operator : Bytes} {left right : Rope}
    (plainOperator : operator.Plain)
    (plainLeft : left.bytes.Plain) (plainRight : right.bytes.Plain) :
    (infixed operator left right).bytes.Plain := by
  unfold infixed
  split
  · simp +decide [plainLeft, plainRight]
  split
  · simp +decide [plainLeft, plainRight]
  · simp +decide [plainOperator, plainLeft, plainRight]

mutual

theorem plain_node {depth : Nat} {tree : Node} {text : Rope} (plain : tree.Plain)
    (written : node depth tree = .ok text) : text.bytes.Plain := by
  obtain ⟨plainText, plainChildren⟩ := Node.plain_iff.mp plain
  match tree with
  | .comment comment _ =>
      have plainComment : comment.Plain := plainText
      rw [node] at written
      cases written
      simp +decide [plain_indent, plainComment]
  | .declaration name _ value _ =>
      have plainName : name.Plain := plainText
      rw [node, bind_eq_ok_iff] at written
      obtain ⟨valueText, isText, ⟨⟩⟩ := written
      have plainValue := plain_node (plainChildren value (.head _)) isText
      simp +decide [plain_indent, plainName, plainValue]
  | .assignment name value _ =>
      have plainName : name.Plain := plainText
      rw [node, bind_eq_ok_iff] at written
      obtain ⟨valueText, isText, ⟨⟩⟩ := written
      have plainValue := plain_node (plainChildren value (.head _)) isText
      simp +decide [plain_indent, plainName, plainValue]
  | .branch condition body otherwise _ =>
      simp only [Node.children, List.mem_cons, List.mem_append] at plainChildren
      rw [node, bind_eq_ok_iff] at written
      obtain ⟨conditionText, isCondition, written⟩ := written
      obtain ⟨bodyText, isBody, written⟩ := bind_eq_ok_iff.mp written
      have plainCondition := plain_node (plainChildren condition (.inl rfl)) isCondition
      have plainBody :=
        plain_block (fun part member => plainChildren part (.inr (.inl member))) isBody
      split at written
      · cases written
        simp +decide [plain_indent, plainCondition, plainBody]
      · obtain ⟨otherText, isOther, ⟨⟩⟩ := bind_eq_ok_iff.mp written
        have plainOther :=
          plain_block (fun part member => plainChildren part (.inr (.inr member))) isOther
        simp +decide [plain_indent, plainCondition, plainBody, plainOther]
  | .block content =>
      rw [node] at written
      exact plain_block plainChildren written
  | .write arguments _ =>
      rw [node, bind_eq_ok_iff] at written
      obtain ⟨texts, areTexts, ⟨⟩⟩ := written
      have plainTexts := plain_nodes plainChildren areTexts
      have plainArguments := plain_separated (show (utf8 ", ").Plain by decide) plainTexts
      simp +decide [plain_indent, plainArguments]
  | .binary operator left right _ =>
      rw [node, bind_eq_ok_iff] at written
      obtain ⟨leftText, isLeft, written⟩ := written
      obtain ⟨rightText, isRight, ⟨⟩⟩ := bind_eq_ok_iff.mp written
      have plainLeft := plain_node (plainChildren left (by simp [Node.children])) isLeft
      have plainRight := plain_node (plainChildren right (by simp [Node.children])) isRight
      exact plain_infixed plainText plainLeft plainRight
  | .identifier name _ =>
      have plainName : name.Plain := plainText
      rw [node] at written
      cases written
      rwa [Rope.bytes_leaf]
  | .string value _ =>
      have plainValue : value.Plain := plainText
      rw [node] at written
      cases written
      simp +decide [plainValue]
  | .expression _ _ | .missing =>
      rw [node] at written
      cases written

theorem plain_block {depth : Nat} {content : Block} {text : Rope}
    (plain : ∀ statement ∈ content.statements, statement.Plain)
    (written : block depth content = .ok text) : text.bytes.Plain := by
  match content with
  | .missing =>
      rw [block] at written
      cases written
  | .braced statements _ =>
      rw [block, bind_eq_ok_iff] at written
      obtain ⟨lines, areLines, ⟨⟩⟩ := written
      have plainLines := plain_nodes plain areLines
      have plainWhole := plain_separated (show (utf8 "\n").Plain by decide) plainLines
      simp +decide [plain_indent, plainWhole]

private theorem plain_nodes {depth : Nat} {trees : List Node} {texts : List Rope}
    (plain : ∀ tree ∈ trees, tree.Plain) (written : nodes depth trees = .ok texts) :
    ∀ text ∈ texts, text.bytes.Plain := by
  match trees with
  | [] =>
      rw [nodes] at written
      cases written
      intro text member
      cases member
  | tree :: rest =>
      obtain ⟨first, others, isFirst, areOthers, rfl⟩ := nodes_cons_eq_ok_iff.mp written
      have plainFirst := plain_node (plain tree (.head _)) isFirst
      have plainOthers := plain_nodes (fun other member => plain other (.tail _ member)) areOthers
      intro text member
      rcases List.mem_cons.mp member with rfl | inOthers
      · exact plainFirst
      · exact plainOthers text inOthers

end

end JavaScript

private theorem EmitFault.plain_message (fault : EmitFault) : fault.message.Plain := by
  cases fault with
  | missingNode | missingBlock => decide
  | unsupported kind => cases kind <;> decide

namespace JavaScript

/-- The code of a program with plain texts is plain. -/
theorem plainly_statements {program : Program} (plain : ∀ statement ∈ program, statement.Plain) :
    Plainly EmitFault.message Bytes.Plain (statements program) := by
  unfold statements
  cases written : nodes 0 program with
  | error fault => exact .error fault.plain_message
  | ok texts =>
      have plainTexts := plain_nodes plain written
      apply Plainly.ok
      rw [Bytes.plain_flatMap]
      intro text member
      rw [Rope.onto_eq_append]
      exact Bytes.plain_append.mpr ⟨plainTexts text member, by decide⟩

theorem plainly_file {program : Program} (plain : ∀ statement ∈ program, statement.Plain) :
    Plainly EmitFault.message Bytes.Plain (file program) := by
  have plainly := plainly_statements plain
  unfold file
  generalize statements program = result at plainly
  cases plainly with
  | error plainFault => exact .error plainFault
  | ok plainText =>
      apply Plainly.ok
      simp +decide [plainText]

end JavaScript

end TriforceScript
