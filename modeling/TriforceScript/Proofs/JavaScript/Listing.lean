import TriforceScript.Proofs.JavaScript.Injectivity

/-!
# Listings

A program as a list of lines, each with its depth: one line for every statement, and for a
branch the line that opens its block, the lines of the block and the line that closes it.
Generated code is such a listing with two blanks for every step of depth.
-/

namespace TriforceScript

open Node (IsOperand IsJoin IsExpression IsStatement)

namespace Listing

inductive Row where
  | text (depth : Nat) (content : Bytes)
  /-- A line without any blanks. -/
  | empty

def Row.print : Row → Bytes
  | .text depth content =>
      List.replicate (2 * depth) Bytes.space ++ content ++ [Bytes.lineFeed]
  | .empty => [Bytes.lineFeed]

def print (rows : List Row) : Bytes :=
  rows.flatMap Row.print

/-- The text of a value. -/
def value : Node → Bytes
  | .identifier name _ => name
  | .string content _ => utf8 "\"" ++ content ++ utf8 "\""
  | .binary operator left right _ =>
      value left ++ (if operator = utf8 "->" then utf8 " + \" \" + " else utf8 " === ") ++
        value right
  | _ => []

mutual

/-- The lines of a statement. -/
def rows (depth : Nat) : Node → List Row
  | .comment content _ => [.text depth (utf8 "// " ++ content)]
  | .declaration name _ tree _ =>
      [.text depth (utf8 "let " ++ name ++ utf8 " = " ++ value tree ++ utf8 ";")]
  | .assignment name tree _ => [.text depth (name ++ utf8 " = " ++ value tree ++ utf8 ";")]
  | .write arguments _ =>
      [.text depth
        (utf8 "console.log(" ++ List.intercalate (utf8 ", ") (arguments.map value) ++
          utf8 ");")]
  | .branch condition body _ _ =>
      .text depth (utf8 "if (" ++ value condition ++ utf8 ") \x7b") ::
        (blockRows (depth + 1) body ++ [.text depth (utf8 "\x7d")])
  | _ => []

/-- The lines between the braces of a block. -/
def blockRows (depth : Nat) : Block → List Row
  | .braced statements _ => if statements.isEmpty then [.empty] else rowsAll depth statements
  | .missing => []

def rowsAll (depth : Nat) : List Node → List Row
  | [] => []
  | first :: rest => rows depth first ++ rowsAll depth rest

end

/-! ## Values -/

theorem intercalate_cons (separator first : Bytes) (rest : List Bytes) :
    List.intercalate separator (first :: rest) =
      first ++ rest.flatMap fun text => separator ++ text := by
  induction rest generalizing first with
  | nil =>
      simp [List.intercalate]
  | cons second others inductionHypothesis =>
      have longer :
          List.intercalate separator (first :: second :: others) =
            first ++ (separator ++ List.intercalate separator (second :: others)) := by
        simp [List.intercalate]
      rw [longer, inductionHypothesis, List.flatMap_cons, List.append_assoc]

private theorem bytes_separated (separator : Bytes) (texts : List Rope) :
    (Rope.separated separator texts).bytes =
      List.intercalate separator (texts.map Rope.bytes) := by
  cases texts with
  | nil =>
      rw [Rope.separated, Rope.bytes_leaf]
      rfl
  | cons first rest =>
      rw [JavaScript.bytes_separated_cons, List.map_cons, intercalate_cons, List.flatMap_map]

open JavaScript

/-- The code of a value is the text that a listing has for it. -/
def Spelled (tree : Node) : Prop :=
  ∀ {text : Rope}, node 0 tree = .ok text → text.bytes = value tree

private theorem spelled_operand {tree : Node} (isOperand : IsOperand tree) : Spelled tree := by
  intro text written
  cases isOperand with
  | identifier _ =>
      rw [node] at written
      cases written
      rw [Rope.bytes_leaf, value]
  | string _ =>
      rw [node] at written
      cases written
      rw [Rope.bytes_append, Rope.bytes_leaf, Rope.bytes_leaf, value]
      rfl

private theorem spelled_binary {operator : Bytes} {left right : Node} {pos : Position}
    (isLeft : Spelled left) (isRight : Spelled right)
    (known : operator = utf8 "->" ∨ operator = utf8 "==") :
    Spelled (.binary operator left right pos) := by
  intro text written
  rw [node] at written
  obtain ⟨leftText, isLeftText, written⟩ := bind_eq_ok_iff.mp written
  obtain ⟨rightText, isRightText, written⟩ := bind_eq_ok_iff.mp written
  cases written
  rw [value, ← isLeft isLeftText, ← isRight isRightText, infixed]
  rcases known with rfl | rfl
  · rw [if_pos rfl, if_pos rfl]
    simp
  · rw [if_neg (by decide), if_pos rfl, if_neg (by decide)]
    simp

private theorem spelled_join {tree : Node} (isJoin : IsJoin tree) : Spelled tree := by
  induction isJoin with
  | operand isOperand => exact spelled_operand isOperand
  | join _ isRight inductionHypothesis =>
      exact spelled_binary inductionHypothesis (spelled_operand isRight) (.inl rfl)

private theorem spelled_expression {tree : Node} (isExpression : IsExpression tree) :
    Spelled tree := by
  induction isExpression with
  | join isJoin => exact spelled_join isJoin
  | compare _ isRight inductionHypothesis =>
      exact spelled_binary inductionHypothesis (spelled_join isRight) (.inr rfl)

private theorem map_bytes_of_nodes {trees : List Node} (spelled : ∀ tree ∈ trees, Spelled tree)
    {texts : List Rope} (written : nodes 0 trees = .ok texts) :
    texts.map Rope.bytes = trees.map value := by
  induction trees generalizing texts with
  | nil =>
      rw [nodes] at written
      cases written
      rfl
  | cons tree rest inductionHypothesis =>
      obtain ⟨text, others, isText, areOthers, rfl⟩ := nodes_cons_eq_ok_iff.mp written
      rw [List.forall_mem_cons] at spelled
      rw [List.map_cons, List.map_cons, spelled.1 isText, inductionHypothesis spelled.2 areOthers]

/-! ## Statements -/

theorem print_append (first second : List Row) :
    print (first ++ second) = print first ++ print second :=
  List.flatMap_append

@[simp]
theorem print_nil : print [] = [] := rfl

theorem print_text (depth : Nat) (content : Bytes) (rest : List Row) :
    print (.text depth content :: rest) =
      indent depth ++ (content ++ Bytes.lineFeed :: print rest) := by
  simp [print, Row.print, indent]

/-- The code of a statement is its part of the listing, whatever the depth. -/
def Listed (tree : Node) : Prop :=
  ∀ {depth : Nat} {text : Rope}, node depth tree = .ok text →
    text.bytes ++ [Bytes.lineFeed] = print (rows depth tree)

theorem joinLines_eq_print {trees : List Node} (listed : ∀ tree ∈ trees, Listed tree) {depth : Nat}
    {texts : List Rope} (written : nodes depth trees = .ok texts) :
    joinLines texts = print (rowsAll depth trees) := by
  induction trees generalizing texts with
  | nil =>
      rw [nodes] at written
      cases written
      rw [rowsAll]
      rfl
  | cons tree rest inductionHypothesis =>
      obtain ⟨text, others, isText, areOthers, rfl⟩ := nodes_cons_eq_ok_iff.mp written
      rw [List.forall_mem_cons] at listed
      rw [rowsAll, print_append, ← listed.1 isText, ← inductionHypothesis listed.2 areOthers]
      rfl

/-- The lines of a block are separated by line feeds, and one more stands behind them.  So an
empty block has an empty line. -/
theorem separated_eq_print {trees : List Node} (listed : ∀ tree ∈ trees, Listed tree)
    {depth : Nat} {lines : List Rope} (written : nodes depth trees = .ok lines)
    (brace : Position) :
    (Rope.separated (utf8 "\n") lines).bytes ++ [Bytes.lineFeed] =
      print (blockRows depth (.braced trees brace)) := by
  cases trees with
  | nil =>
      rw [nodes] at written
      cases written
      rw [blockRows]
      rfl
  | cons tree rest =>
      have areRows := joinLines_eq_print listed written
      obtain ⟨text, others, -, -, rfl⟩ := nodes_cons_eq_ok_iff.mp written
      have joined :
          (Rope.separated (utf8 "\n") (text :: others)).bytes ++ [Bytes.lineFeed] =
            joinLines (text :: others) ++ [] :=
        bytes_separated_lines []
      rw [joined, List.append_nil, areRows, blockRows]
      rfl

theorem listed_of_isStatement {tree : Node} (isStatement : IsStatement tree) : Listed tree := by
  induction isStatement with
  | comment _ _ =>
      intro depth text written
      rw [node] at written
      cases written
      rw [rows, print_text]
      simp
  | declaration _ _ isValue =>
      intro depth text written
      rw [node] at written
      obtain ⟨valueText, isText, written⟩ := bind_eq_ok_iff.mp written
      cases written
      rw [rows, print_text, ← spelled_expression isValue isText]
      simp
  | assignment _ isValue =>
      intro depth text written
      rw [node] at written
      obtain ⟨valueText, isText, written⟩ := bind_eq_ok_iff.mp written
      cases written
      rw [rows, print_text, ← spelled_expression isValue isText]
      simp
  | @branch condition body brace pos isCondition _ inductionHypothesis =>
      intro depth text written
      rw [node] at written
      obtain ⟨conditionText, isText, written⟩ := bind_eq_ok_iff.mp written
      obtain ⟨bodyText, isBodyText, written⟩ := bind_eq_ok_iff.mp written
      rw [block] at isBodyText
      obtain ⟨lines, areLines, isBodyText⟩ := bind_eq_ok_iff.mp isBodyText
      cases isBodyText
      cases written
      have bodyRows := separated_eq_print inductionHypothesis areLines brace
      have opening : utf8 ") \x7b" = utf8 ") " ++ utf8 "\x7b" := rfl
      have opened : utf8 "\x7b\n" = utf8 "\x7b" ++ [Bytes.lineFeed] := rfl
      have ended : utf8 "\n" = [Bytes.lineFeed] := rfl
      rw [rows, print_text, print_append, print_text, ← bodyRows,
        ← spelled_expression isCondition isText, opening]
      simp [opened, ended]
  | @write arguments pos areValues =>
      intro depth text written
      rw [node] at written
      obtain ⟨texts, areTexts, written⟩ := bind_eq_ok_iff.mp written
      cases written
      have sameTexts : texts.map Rope.bytes = arguments.map value := by
        apply map_bytes_of_nodes _ areTexts
        intro argument member
        exact spelled_expression (areValues argument member)
      rw [rows, print_text, ← sameTexts, ← bytes_separated]
      simp
  | expression _ =>
      intro depth text written
      rw [node] at written
      cases written

end Listing

/-- Generated code is a listing of the program, with the lines of every block one step further to
the right than the lines around it. -/
theorem statements_eq_listing {source : Bytes} {program : Program}
    (parsed : (parse source).result = .ok program) {code : Bytes}
    (written : JavaScript.statements program = .ok code) :
    code = Listing.print (Listing.rowsAll 0 program) := by
  obtain ⟨texts, areTexts, rfl⟩ := JavaScript.statements_eq_joinLines written
  apply Listing.joinLines_eq_print _ areTexts
  intro statement member
  exact Listing.listed_of_isStatement (wellFormed_of_parse parsed statement member)

/-- A block with a comment, an empty block and a write in it. -/
def nestedBlocks : Program :=
  [.branch (.identifier (utf8 "a") ⟨1, 8⟩)
    (.braced
      [.comment (utf8 "b") ⟨1, 19⟩,
        .branch (.identifier (utf8 "c") ⟨2, 9⟩) (.braced [] ⟨2, 14⟩) .missing ⟨2, 4⟩,
        .write [.string (utf8 "f") ⟨2, 25⟩] ⟨2, 21⟩] ⟨1, 13⟩)
    .missing ⟨1, 3⟩]

theorem statements_nestedBlocks_eq_listing :
    (parse (utf8 "if -> a => \x7b /_\\ b\n if -> c => \x7b\x7d write(\"f\") \x7d")).result =
      .ok nestedBlocks ∧
    JavaScript.statements nestedBlocks =
      .ok (utf8 "if (a) \x7b\n  // b\n  if (c) \x7b\n\n  \x7d\n  console.log(\"f\");\n\x7d\n") ∧
    utf8 "if (a) \x7b\n  // b\n  if (c) \x7b\n\n  \x7d\n  console.log(\"f\");\n\x7d\n" =
      Listing.print (Listing.rowsAll 0 nestedBlocks) := by
  have parsed :
      (parse (utf8 "if -> a => \x7b /_\\ b\n if -> c => \x7b\x7d write(\"f\") \x7d")).result =
        .ok nestedBlocks := rfl
  have written :
      JavaScript.statements nestedBlocks =
        .ok (utf8
          "if (a) \x7b\n  // b\n  if (c) \x7b\n\n  \x7d\n  console.log(\"f\");\n\x7d\n") := rfl
  exact ⟨parsed, written, statements_eq_listing parsed written⟩

end TriforceScript
