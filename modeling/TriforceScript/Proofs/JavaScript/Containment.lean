import TriforceScript.Proofs.JavaScript.Elements
import TriforceScript.Proofs.JavaScript.Listing

/-!
# Containment of comments and strings

Comments and strings are written as they are, without escapes.  So a comment of the program stays
one comment of the code if no line of JavaScript ends in it, and a string stays one string if no
line ends in it and its last backslash acts on nothing but a backslash.  Code falls into the
comments and strings of its program and the bytes around them if this holds of all of them, and
otherwise it does not.
-/

namespace TriforceScript

open Node (IsOperand IsJoin IsExpression IsStatement)

namespace JavaScript

/-! ## Outlines -/

namespace Outline

def line (depth : Nat) (content : List Element) : List Element :=
  code (indent depth) ++ content ++ [.code Bytes.lineFeed]

def value : Node → List Element
  | .identifier name _ => code name
  | .string content _ => [.string content]
  | .binary operator left right _ =>
      value left ++
        (if operator = utf8 "->" then
          code (utf8 " + ") ++ .string (utf8 " ") :: code (utf8 " + ")
        else
          code (utf8 " === ")) ++
        value right
  | _ => []

def values : List Node → List Element
  | [] => []
  | first :: rest => value first ++ rest.flatMap fun tree => code (utf8 ", ") ++ value tree

mutual

/-- The elements of a statement. -/
def statement (depth : Nat) : Node → List Element
  | .comment text _ => line depth [.comment (Bytes.space :: text)]
  | .declaration name _ tree _ =>
      line depth
        (code (utf8 "let ") ++ code name ++ code (utf8 " = ") ++ value tree ++ code (utf8 ";"))
  | .assignment name tree _ =>
      line depth (code name ++ code (utf8 " = ") ++ value tree ++ code (utf8 ";"))
  | .write arguments _ =>
      line depth (code (utf8 "console.log(") ++ values arguments ++ code (utf8 ");"))
  | .branch condition body _ _ =>
      line depth (code (utf8 "if (") ++ value condition ++ code (utf8 ") \x7b")) ++
        (block (depth + 1) body ++ line depth (code (utf8 "\x7d")))
  | _ => []

def block (depth : Nat) : Block → List Element
  | .braced body _ => if body.isEmpty then code (utf8 "\n") else statements depth body
  | .missing => []

def statements (depth : Nat) : List Node → List Element
  | [] => []
  | first :: rest => statement depth first ++ statements depth rest

end

end Outline

/-- The elements that a file should fall into: those of the banner and of the program. -/
def outline (program : Program) : List Element :=
  .comment (banner.drop 2) :: code (utf8 "\n\n") ++ Outline.statements 0 program

/-- What a comment or string of a program should be in the code. -/
def element? : Node → Option Element
  | .comment text _ => some (.comment (Bytes.space :: text))
  | .string value _ => some (.string value)
  | _ => none

end JavaScript

/-- A comment in which no line of JavaScript ends, or a string in which no line ends and no
backslash acts on what follows it.  Of other nodes there is nothing to say. -/
def Node.Contained : Node → Prop
  | .comment text _ => ∀ lineEnd ∈ JavaScript.otherLineEnds, ¬ lineEnd <:+: text
  | .string value _ =>
      (∀ byte ∈ value, byte ∉ [Bytes.lineFeed, Bytes.carriageReturn]) ∧
        2 ∣ JavaScript.backslashesAtEnd value
  | _ => True

instance : DecidablePred Node.Contained
  | .comment text _ =>
      inferInstanceAs (Decidable (∀ lineEnd ∈ JavaScript.otherLineEnds, ¬ lineEnd <:+: text))
  | .string value _ =>
      inferInstanceAs
        (Decidable
          ((∀ byte ∈ value, byte ∉ [Bytes.lineFeed, Bytes.carriageReturn]) ∧
            2 ∣ JavaScript.backslashesAtEnd value))
  | .declaration _ _ _ _ | .assignment _ _ _ | .branch _ _ _ _ | .block _ | .write _ _
  | .expression _ _ | .binary _ _ _ _ | .identifier _ _ | .missing => isTrue trivial

/-- Nothing stands in a tree without children but the tree itself. -/
private theorem Node.Within.eq_of_leaf {part tree : Node} (within : part.Within tree)
    (leaf : tree.children = []) : part = tree := by
  cases within with
  | self => rfl
  | child member _ =>
      rw [leaf] at member
      cases member

namespace Listing

theorem print_cons (row : Row) (rows : List Row) :
    print (row :: rows) = row.print ++ print rows :=
  List.flatMap_cons

theorem print_singleton (row : Row) : print [row] = row.print :=
  List.flatMap_singleton _ row

end Listing

namespace JavaScript

theorem contained_comment_iff {text : Bytes} (noLineFeed : Bytes.lineFeed ∉ text) (pos : Position) :
    (Node.comment text pos).Contained ↔ IsLine (Bytes.space :: text) := by
  rw [isLine_space_cons_iff, isLine_iff]
  exact (and_iff_right noLineFeed).symm

theorem contained_string_iff {value : Bytes} (noQuote : Bytes.quote ∉ value) (pos : Position) :
    (Node.string value pos).Contained ↔ IsBody value :=
  (isBody_iff noQuote).symm

/-! ## Code that falls into its outline -/

private theorem mem_codeBytes_of_isName {name : Bytes} (isName : Lexical.IsName name) :
    ∀ byte ∈ name, byte ∈ codeBytes := by
  intro byte member
  have inName := mem_nameBytes_of_isWord isName.1 byte member
  exact List.mem_append_left _ (List.mem_append_left _ inName)

/-- The texts between the names, comments and strings of a file. -/
def connectives : List Bytes :=
  [utf8 "\n", utf8 " + ", utf8 " === ", utf8 ", ", utf8 " = ", utf8 ";", utf8 "let ",
    utf8 "console.log(", utf8 ");", utf8 "if (", utf8 ") \x7b", utf8 "\x7d"]

private theorem splits_connective (text : Bytes) (isConnective : text ∈ connectives) :
    Splits text (code text) := by
  have areCode : ∀ text ∈ connectives, ∀ byte ∈ text, byte ∈ codeBytes := by
    decide +kernel
  exact .code (areCode text isConnective)

private theorem splits_lineFeed : Splits [Bytes.lineFeed] [.code Bytes.lineFeed] :=
  splits_connective (utf8 "\n") (by simp [connectives])

private theorem splits_indent (depth : Nat) : Splits (indent depth) (code (indent depth)) := by
  apply Splits.code
  intro byte member
  rw [List.eq_of_mem_replicate member]
  exact List.mem_append_left _ (List.mem_append_right _ (by decide))

private theorem splits_operand {tree : Node} (isOperand : IsOperand tree)
    (contained : tree.Contained) :
    Splits (Listing.value tree) (Outline.value tree) := by
  cases isOperand with
  | identifier isName =>
      rw [Listing.value, Outline.value]
      exact .code (mem_codeBytes_of_isName isName)
  | string noQuote =>
      rw [Listing.value, Outline.value]
      have splits := Splits.string ((contained_string_iff noQuote _).mp contained)
      rwa [← List.cons_append] at splits

private theorem splits_binary {operator : Bytes} {left right : Node} {pos : Position}
    (splitsLeft : Splits (Listing.value left) (Outline.value left))
    (splitsRight : Splits (Listing.value right) (Outline.value right)) :
    Splits (Listing.value (.binary operator left right pos))
      (Outline.value (.binary operator left right pos)) := by
  rw [Listing.value, Outline.value]
  refine .append (.append splitsLeft ?_) splitsRight
  split
  · have plus := splits_connective (utf8 " + ") (by simp [connectives])
    have blank : IsBody (utf8 " ") := .plain (by decide) .nil
    exact plus.append ((Splits.string blank).append plus)
  · exact splits_connective _ (by simp [connectives])

private theorem splits_join {tree : Node} (isJoin : IsJoin tree)
    (contained : ∀ part : Node, part.Within tree → part.Contained) :
    Splits (Listing.value tree) (Outline.value tree) := by
  induction isJoin with
  | operand isOperand => exact splits_operand isOperand (contained _ (.self _))
  | join _ isRight inductionHypothesis =>
      apply splits_binary
      · apply inductionHypothesis
        intro part within
        exact contained part (.child List.mem_cons_self within)
      · exact splits_operand isRight (contained _ (.child (by simp [Node.children]) (.self _)))

private theorem splits_value {tree : Node} (isExpression : IsExpression tree)
    (contained : ∀ part : Node, part.Within tree → part.Contained) :
    Splits (Listing.value tree) (Outline.value tree) := by
  induction isExpression with
  | join isJoin => exact splits_join isJoin contained
  | compare _ isRight inductionHypothesis =>
      apply splits_binary
      · apply inductionHypothesis
        intro part within
        exact contained part (.child List.mem_cons_self within)
      · apply splits_join isRight
        intro part within
        exact contained part (.child (by simp [Node.children]) within)

private theorem splits_values {trees : List Node} (areValues : ∀ tree ∈ trees, IsExpression tree)
    (contained : ∀ tree ∈ trees, ∀ part : Node, part.Within tree → part.Contained) :
    Splits (List.intercalate (utf8 ", ") (trees.map Listing.value)) (Outline.values trees) := by
  have comma := splits_connective (utf8 ", ") (by simp [connectives])
  have splits : ∀ tree ∈ trees, Splits (Listing.value tree) (Outline.value tree) := by
    intro tree member
    exact splits_value (areValues tree member) (contained tree member)
  cases trees with
  | nil => exact .nil
  | cons first rest =>
      rw [List.forall_mem_cons] at splits
      rw [List.map_cons, Listing.intercalate_cons, List.flatMap_map, Outline.values]
      refine splits.1.append (.flatMap fun tree member => ?_)
      exact comma.append (splits.2 tree member)

private theorem splits_line {content : Bytes} {elements : List Element}
    (splits : Splits content elements) (depth : Nat) :
    Splits (Listing.Row.print (.text depth content)) (Outline.line depth elements) :=
  ((splits_indent depth).append splits).append splits_lineFeed

private theorem splits_statements {trees : List Node} {depth : Nat}
    (splits : ∀ tree ∈ trees,
      Splits (Listing.print (Listing.rows depth tree)) (Outline.statement depth tree)) :
    Splits (Listing.print (Listing.rowsAll depth trees)) (Outline.statements depth trees) := by
  induction trees with
  | nil =>
      rw [Listing.rowsAll, Outline.statements]
      exact .nil
  | cons tree rest inductionHypothesis =>
      rw [List.forall_mem_cons] at splits
      rw [Listing.rowsAll, Outline.statements, Listing.print_append]
      exact splits.1.append (inductionHypothesis splits.2)

private theorem splits_block {trees : List Node} {depth : Nat}
    (splits : ∀ tree ∈ trees,
      Splits (Listing.print (Listing.rows depth tree)) (Outline.statement depth tree))
    (brace : Position) :
    Splits (Listing.print (Listing.blockRows depth (.braced trees brace)))
      (Outline.block depth (.braced trees brace)) := by
  rw [Listing.blockRows, Outline.block]
  split
  · exact splits_lineFeed
  · exact splits_statements splits

/-- If all that it holds is contained, the code of a statement falls into its outline. -/
theorem splits_statement {tree : Node} (isStatement : IsStatement tree)
    (contained : ∀ part : Node, part.Within tree → part.Contained) (depth : Nat) :
    Splits (Listing.print (Listing.rows depth tree)) (Outline.statement depth tree) := by
  have equals := splits_connective (utf8 " = ") (by simp [connectives])
  have semicolon := splits_connective (utf8 ";") (by simp [connectives])
  induction isStatement generalizing depth with
  | @comment text pos noLineFeed _ =>
      -- A comment without its line feed would take what follows with it, so it is no case of
      -- `splits_line`.
      have isLine := (contained_comment_iff noLineFeed pos).mp (contained _ (.self _))
      have splits := (splits_indent depth).append (Splits.comment isLine)
      rw [Listing.rows, Outline.statement, Outline.line, Listing.print_text,
        List.append_assoc (code (indent depth))]
      exact splits
  | declaration isName _ isValue =>
      have word := splits_connective (utf8 "let ") (by simp [connectives])
      have name := Splits.code (mem_codeBytes_of_isName isName)
      have value := splits_value isValue fun part within =>
        contained part (.child List.mem_cons_self within)
      rw [Listing.rows, Outline.statement, Listing.print_singleton]
      exact splits_line ((((word.append name).append equals).append value).append semicolon) depth
  | assignment isName isValue =>
      have name := Splits.code (mem_codeBytes_of_isName isName)
      have value := splits_value isValue fun part within =>
        contained part (.child List.mem_cons_self within)
      rw [Listing.rows, Outline.statement, Listing.print_singleton]
      exact splits_line (((name.append equals).append value).append semicolon) depth
  | @branch _ body brace _ isCondition _ inductionHypothesis =>
      have word := splits_connective (utf8 "if (") (by simp [connectives])
      have condition := splits_value isCondition fun part within =>
        contained part (.child List.mem_cons_self within)
      have opening := splits_connective (utf8 ") \x7b") (by simp [connectives])
      have statements : ∀ tree ∈ body,
          Splits (Listing.print (Listing.rows (depth + 1) tree))
            (Outline.statement (depth + 1) tree) := by
        intro tree member
        apply inductionHypothesis tree member
        intro part within
        have inBranch := List.mem_append_left (Block.statements .missing) member
        exact contained part (.child (List.mem_cons_of_mem _ inBranch) within)
      have closing := splits_connective (utf8 "\x7d") (by simp [connectives])
      rw [Listing.rows, Outline.statement, Listing.print_cons, Listing.print_append,
        Listing.print_singleton]
      exact (splits_line ((word.append condition).append opening) depth).append
        ((splits_block statements brace).append (splits_line closing depth))
  | write areValues =>
      have word := splits_connective (utf8 "console.log(") (by simp [connectives])
      have arguments := splits_values areValues fun tree member part within =>
        contained part (.child member within)
      have closing := splits_connective (utf8 ");") (by simp [connectives])
      rw [Listing.rows, Outline.statement, Listing.print_singleton]
      exact splits_line ((word.append arguments).append closing) depth
  | expression _ =>
      simp only [Listing.rows, Outline.statement]
      exact .nil

/-! ## What an outline shows -/

/-- Every comment and string that stands in a tree is shown by `elements`. -/
def Shows (elements : List Element) (tree : Node) : Prop :=
  ∀ part element, part.Within tree → element? part = some element → element ∈ elements

private theorem shows_of_children {tree : Node} {elements : List Element}
    (alone : element? tree = none)
    (shows : ∀ child ∈ tree.children, Shows elements child) : Shows elements tree := by
  intro part element within isElement
  cases within with
  | self =>
      rw [alone] at isElement
      cases isElement
  | child member within => exact shows _ member part element within isElement

private theorem Shows.mono {elements more : List Element} {tree : Node}
    (shows : Shows elements tree) (subset : elements ⊆ more) : Shows more tree :=
  fun part element within isElement => subset (shows part element within isElement)

private theorem Shows.between {elements : List Element} {tree : Node} (shows : Shows elements tree)
    (front back : List Element) : Shows (front ++ elements ++ back) tree :=
  shows.mono (List.Subset.trans (List.subset_append_right front elements)
    (List.subset_append_left _ back))

private theorem shows_operand {tree : Node} (isOperand : IsOperand tree) :
    Shows (Outline.value tree) tree := by
  cases isOperand with
  | identifier _ =>
      refine shows_of_children rfl fun child member => ?_
      cases member
  | string _ =>
      intro part element within isElement
      obtain rfl := within.eq_of_leaf rfl
      cases isElement
      rw [Outline.value]
      exact List.mem_cons_self

private theorem shows_binary {operator : Bytes} {left right : Node} {pos : Position}
    (showsLeft : Shows (Outline.value left) left) (showsRight : Shows (Outline.value right) right) :
    Shows (Outline.value (.binary operator left right pos)) (.binary operator left right pos) := by
  refine shows_of_children rfl ?_
  rw [Node.children, List.forall_mem_cons, List.forall_mem_singleton, Outline.value]
  refine ⟨showsLeft.mono ?_, showsRight.mono ?_⟩
  · rw [List.append_assoc]
    exact List.subset_append_left _ _
  · exact List.subset_append_right _ _

private theorem shows_join {tree : Node} (isJoin : IsJoin tree) :
    Shows (Outline.value tree) tree := by
  induction isJoin with
  | operand isOperand => exact shows_operand isOperand
  | join _ isRight inductionHypothesis =>
      exact shows_binary inductionHypothesis (shows_operand isRight)

private theorem shows_value {tree : Node} (isExpression : IsExpression tree) :
    Shows (Outline.value tree) tree := by
  induction isExpression with
  | join isJoin => exact shows_join isJoin
  | compare _ isRight inductionHypothesis =>
      exact shows_binary inductionHypothesis (shows_join isRight)

private theorem shows_values {trees : List Node} (areValues : ∀ tree ∈ trees, IsExpression tree) :
    ∀ tree ∈ trees, Shows (Outline.values trees) tree := by
  intro tree member
  apply (shows_value (areValues tree member)).mono
  cases trees with
  | nil => cases member
  | cons first rest =>
      rw [Outline.values]
      rcases List.mem_cons.mp member with rfl | inRest
      · exact List.subset_append_left _ _
      · intro element isElement
        apply List.mem_append_right
        exact List.mem_flatMap.mpr ⟨tree, inRest, List.mem_append_right _ isElement⟩

private theorem shows_statements {trees : List Node} {depth : Nat}
    (shows : ∀ tree ∈ trees, Shows (Outline.statement depth tree) tree) :
    ∀ tree ∈ trees, Shows (Outline.statements depth trees) tree := by
  induction trees with
  | nil =>
      intro tree member
      cases member
  | cons first rest inductionHypothesis =>
      rw [List.forall_mem_cons] at shows ⊢
      rw [Outline.statements]
      refine ⟨shows.1.mono (List.subset_append_left _ _), fun tree member => ?_⟩
      exact (inductionHypothesis shows.2 tree member).mono (List.subset_append_right _ _)

private theorem exists_node_of_mem {depth : Nat} {trees : List Node} {texts : List Rope}
    (written : nodes depth trees = .ok texts) :
    ∀ tree ∈ trees, ∃ text, node depth tree = .ok text := by
  induction trees generalizing texts with
  | nil =>
      intro tree member
      cases member
  | cons first rest inductionHypothesis =>
      obtain ⟨text, others, isText, areOthers, -⟩ := nodes_cons_eq_ok_iff.mp written
      exact List.forall_mem_cons.mpr ⟨⟨text, isText⟩, inductionHypothesis areOthers⟩

/-- The outline of a statement that has a text shows everything in it. -/
theorem shows_statement {tree : Node} (isStatement : IsStatement tree) {depth : Nat} {text : Rope}
    (written : node depth tree = .ok text) : Shows (Outline.statement depth tree) tree := by
  induction isStatement generalizing depth text with
  | comment _ _ =>
      intro part element within isElement
      obtain rfl := within.eq_of_leaf rfl
      cases isElement
      rw [Outline.statement, Outline.line]
      exact List.mem_append_left _ (List.mem_append_right _ List.mem_cons_self)
  | declaration _ _ isValue =>
      refine shows_of_children rfl ?_
      rw [Node.children, List.forall_mem_singleton, Outline.statement]
      exact ((shows_value isValue).between _ _).between _ _
  | assignment _ isValue =>
      refine shows_of_children rfl ?_
      rw [Node.children, List.forall_mem_singleton, Outline.statement]
      exact ((shows_value isValue).between _ _).between _ _
  | @branch condition body brace pos isCondition _ inductionHypothesis =>
      rw [node] at written
      obtain ⟨_, -, written⟩ := bind_eq_ok_iff.mp written
      obtain ⟨_, writtenBlock, -⟩ := bind_eq_ok_iff.mp written
      rw [block] at writtenBlock
      obtain ⟨lines, areLines, -⟩ := bind_eq_ok_iff.mp writtenBlock
      have showsBody : ∀ tree ∈ body, Shows (Outline.statements (depth + 1) body) tree := by
        apply shows_statements
        intro tree member
        obtain ⟨_, isText⟩ := exists_node_of_mem areLines tree member
        exact inductionHypothesis tree member isText
      refine shows_of_children rfl ?_
      rw [Node.children, Block.statements, Block.statements, List.append_nil,
        List.forall_mem_cons, Outline.statement]
      refine ⟨?_, fun tree member => ?_⟩
      · exact (((shows_value isCondition).between _ _).between _ _).mono
          (List.subset_append_left _ _)
      · -- Only a block without statements has an empty line in their place.
        have nonempty : body.isEmpty = false :=
          List.isEmpty_eq_false_iff.mpr (List.ne_nil_of_mem member)
        have isBlock :
            Outline.block (depth + 1) (.braced body brace) =
              Outline.statements (depth + 1) body := by
          rw [Outline.block, nonempty]
          rfl
        rw [isBlock, ← List.append_assoc]
        exact (showsBody tree member).between _ _
  | write areValues =>
      refine shows_of_children rfl fun tree member => ?_
      rw [Outline.statement]
      exact ((shows_values areValues tree member).between _ _).between _ _
  | expression _ =>
      rw [node] at written
      cases written

/-! ## Files -/

/-- A file is the banner, an empty line and the texts of its program, each on lines of its own. -/
private theorem exists_texts_of_file {program : Program} {code : Bytes}
    (written : file program = .ok code) :
    ∃ texts, nodes 0 program = .ok texts ∧ code = banner ++ utf8 "\n\n" ++ joinLines texts := by
  unfold file at written
  cases isText : statements program with
  | error fault =>
      rw [isText] at written
      cases written
  | ok text =>
      rw [isText] at written
      cases written
      obtain ⟨texts, areTexts, rfl⟩ := statements_eq_joinLines isText
      exact ⟨texts, areTexts, rfl⟩

private theorem splits_banner :
    Splits (banner ++ utf8 "\n\n") (.comment (banner.drop 2) :: JavaScript.code (utf8 "\n\n")) := by
  have isLine : IsLine (banner.drop 2) := by
    decide +kernel
  exact (Splits.comment isLine).append splits_lineFeed

private theorem splits_file {program : Program} (wellFormed : program.WellFormed) {code : Bytes}
    (written : file program = .ok code)
    (contained : ∀ statement ∈ program, ∀ part : Node, part.Within statement → part.Contained) :
    Splits code (outline program) := by
  obtain ⟨texts, areTexts, rfl⟩ := exists_texts_of_file written
  have areRows : joinLines texts = Listing.print (Listing.rowsAll 0 program) := by
    apply Listing.joinLines_eq_print _ areTexts
    intro statement member
    exact Listing.listed_of_isStatement (wellFormed statement member)
  rw [areRows]
  apply splits_banner.append
  apply splits_statements
  intro statement member
  exact splits_statement (wellFormed statement member) (contained statement member) 0

private theorem shows_file {program : Program} (wellFormed : program.WellFormed) {code : Bytes}
    (written : file program = .ok code) :
    ∀ statement ∈ program, Shows (outline program) statement := by
  obtain ⟨texts, areTexts, -⟩ := exists_texts_of_file written
  have shows : ∀ statement ∈ program, Shows (Outline.statements 0 program) statement := by
    apply shows_statements
    intro statement member
    obtain ⟨_, isText⟩ := exists_node_of_mem areTexts statement member
    exact shows_statement (wellFormed statement member) isText
  intro statement member
  exact (shows statement member).mono (List.subset_append_right _ _)

end JavaScript

/-! ## Comments and strings by themselves -/

namespace Node

variable {statement : Node} (isStatement : IsStatement statement)

include isStatement

private theorem lineFeed_notMem_of_within {text : Bytes} {pos : Position}
    (within : (Node.comment text pos).Within statement) : Bytes.lineFeed ∉ text := by
  rcases within.isStatement_or_isExpression (.inl isStatement) with isComment | impossible
  · cases isComment with
    | comment noLineFeed _ => exact noLineFeed
  · cases impossible with
    | join isJoin =>
      cases isJoin with
      | operand isOperand => cases isOperand

private theorem quote_notMem_of_within {value : Bytes} {pos : Position}
    (within : (Node.string value pos).Within statement) : Bytes.quote ∉ value := by
  rcases within.isStatement_or_isExpression (.inl isStatement) with impossible | isString
  · cases impossible
  · cases isString with
    | join isJoin =>
      cases isJoin with
      | operand isOperand =>
        cases isOperand with
        | string noQuote => exact noQuote

end Node

namespace JavaScript

theorem fallsInto_comment_iff {text : Bytes} (noLineFeed : Bytes.lineFeed ∉ text) (pos : Position)
    (depth : Nat) :
    FallsInto (indent depth ++ utf8 "// " ++ text)
        (code (indent depth) ++ [.comment (Bytes.space :: text)]) ↔
      (Node.comment text pos).Contained := by
  rw [contained_comment_iff noLineFeed]
  constructor
  · intro falls
    exact falls.sound (.comment (Bytes.space :: text))
      (List.mem_append_right _ (List.mem_singleton_self _))
  · intro isLine
    have comment := FallsInto.comment isLine (.inl rfl) .nil
    rw [List.append_nil] at comment
    rw [List.append_assoc]
    exact splits_indent depth _ _ comment

theorem fallsInto_string_iff {value : Bytes} (noQuote : Bytes.quote ∉ value) (pos : Position) :
    FallsInto (Bytes.quote :: value ++ [Bytes.quote]) [.string value] ↔
      (Node.string value pos).Contained := by
  rw [contained_string_iff noQuote]
  constructor
  · intro falls
    exact falls.sound (.string value) (List.mem_singleton_self _)
  · intro isBody
    exact (Splits.string isBody).fallsInto

theorem fallsInto_outline_iff {program : Program} (wellFormed : program.WellFormed) {code : Bytes}
    (written : file program = .ok code) :
    (∀ elements, FallsInto code elements ↔ elements = outline program) ↔
      ∀ statement ∈ program, ∀ part : Node, part.Within statement → part.Contained := by
  constructor
  · intro falls statement member part within
    have sound := ((falls (outline program)).mpr rfl).sound
    have shown := shows_file wellFormed written statement member part
    have isStatement := wellFormed statement member
    cases part with
    | comment text pos =>
        have noLineFeed := Node.lineFeed_notMem_of_within isStatement within
        exact (contained_comment_iff noLineFeed pos).mpr (sound _ (shown _ within rfl))
    | string value pos =>
        have noQuote := Node.quote_notMem_of_within isStatement within
        exact (contained_string_iff noQuote pos).mpr (sound _ (shown _ within rfl))
    | _ => trivial
  · intro contained elements
    have falls := (splits_file wellFormed written contained).fallsInto
    constructor
    · intro fallsElements
      exact fallsElements.unique falls
    · rintro rfl
      exact falls

end JavaScript

open JavaScript (EndsLine FallsInto Splits)

/-- The code of a comment is one comment exactly if the comment is contained, that of a string is
one string exactly if the string is contained, and a file falls into the comments and strings of
its program and the code around them exactly if all of these are contained. -/
theorem fallsInto_iff_contained {source : Bytes} {compilation : Compilation}
    (accepted : (compile source).result = .ok compilation) :
    (∀ statement ∈ compilation.program, ∀ text pos,
      (Node.comment text pos).Within statement → ∀ depth, ∃ written,
        JavaScript.node depth (.comment text pos) = .ok written ∧
        (FallsInto written.bytes
            (JavaScript.code (JavaScript.indent depth) ++ [.comment (Bytes.space :: text)]) ↔
          (Node.comment text pos).Contained)) ∧
    (∀ statement ∈ compilation.program, ∀ value pos,
      (Node.string value pos).Within statement → ∀ depth, ∃ written,
        JavaScript.node depth (.string value pos) = .ok written ∧
        (FallsInto written.bytes [.string value] ↔ (Node.string value pos).Contained)) ∧
    ((∀ elements, FallsInto compilation.code elements ↔
        elements = JavaScript.outline compilation.program) ↔
      ∀ statement ∈ compilation.program, ∀ part : Node,
        part.Within statement → part.Contained) := by
  obtain ⟨parsed, written⟩ := exists_compile_eq_ok_iff.mp ⟨compilation.tokens, accepted⟩
  have wellFormed := wellFormed_of_parse parsed
  refine ⟨?_, ?_, JavaScript.fallsInto_outline_iff wellFormed written⟩
  · intro statement member text pos within depth
    have noLineFeed := Node.lineFeed_notMem_of_within (wellFormed statement member) within
    refine ⟨_, by rw [JavaScript.node], ?_⟩
    simp only [Rope.bytes_append, Rope.bytes_leaf]
    exact JavaScript.fallsInto_comment_iff noLineFeed pos depth
  · intro statement member value pos within depth
    have noQuote := Node.quote_notMem_of_within (wellFormed statement member) within
    refine ⟨_, by rw [JavaScript.node], ?_⟩
    simp only [Rope.bytes_append, Rope.bytes_leaf]
    exact JavaScript.fallsInto_string_iff noQuote pos

/-- A comment and a write of a string that ends with two backslashes. -/
def pairedBackslashes : Program :=
  [.comment (utf8 "it's \"so\"") ⟨1, 14⟩,
    .write [.string (utf8 "a\\\\") ⟨2, 12⟩, .identifier (utf8 "b") ⟨2, 15⟩] ⟨2, 6⟩]

theorem fallsInto_pairedBackslashes :
    ∃ compilation,
      (compile (utf8 "/_\\ it's \"so\"\nwrite(\"a\\\\\", b)")).result = .ok compilation ∧
      compilation.program = pairedBackslashes ∧
      ∀ elements, FallsInto compilation.code elements ↔
        elements =
          .comment (utf8 " Generated by TriforceScript") :: JavaScript.code (utf8 "\n\n") ++
            .comment (utf8 " it's \"so\"") :: JavaScript.code (utf8 "\nconsole.log(") ++
            .string (utf8 "a\\\\") :: JavaScript.code (utf8 ", b);\n") := by
  have parsed :
      (parse (utf8 "/_\\ it's \"so\"\nwrite(\"a\\\\\", b)")).result = .ok pairedBackslashes := rfl
  have written :
      JavaScript.file pairedBackslashes =
        .ok (utf8
          "// Generated by TriforceScript\n\n// it's \"so\"\nconsole.log(\"a\\\\\", b);\n") := by
    decide +kernel
  have outlined :
      JavaScript.outline pairedBackslashes =
        .comment (utf8 " Generated by TriforceScript") :: JavaScript.code (utf8 "\n\n") ++
          .comment (utf8 " it's \"so\"") :: JavaScript.code (utf8 "\nconsole.log(") ++
          .string (utf8 "a\\\\") :: JavaScript.code (utf8 ", b);\n") := by
    decide +kernel
  obtain ⟨tokens, accepted⟩ := exists_compile_eq_ok_iff.mpr ⟨parsed, written⟩
  refine ⟨⟨tokens, pairedBackslashes, _⟩, accepted, rfl, ?_⟩
  rw [← outlined]
  apply (fallsInto_iff_contained accepted).2.2.mpr
  intro statement member part within
  simp only [pairedBackslashes, List.mem_cons, List.not_mem_nil, or_false] at member
  rcases member with rfl | rfl
  · obtain rfl := within.eq_of_leaf rfl
    decide
  · cases within with
    | self => trivial
    | child member within =>
        simp only [Node.children, List.mem_cons, List.not_mem_nil, or_false] at member
        rcases member with rfl | rfl
        · obtain rfl := within.eq_of_leaf rfl
          decide +kernel
        · obtain rfl := within.eq_of_leaf rfl
          trivial

/-- A comment with a carriage return in it, and a write of a backslash and one more string. -/
def smuggledCode : Program :=
  [.comment (utf8 "a\rb()") ⟨1, 10⟩,
    .write [.string (utf8 "\\") ⟨2, 10⟩, .string (utf8 ";c();//") ⟨2, 21⟩] ⟨2, 6⟩]

/-- Code can be read in a comment and in a string: here `b()` and `;c();`. -/
theorem fallsInto_smuggledCode :
    ∃ compilation,
      (compile (utf8 "/_\\ a\rb()\nwrite(\"\\\", \";c();//\")")).result = .ok compilation ∧
      compilation.program = smuggledCode ∧
      (∃ written,
        JavaScript.node 0 (.comment (utf8 "a\rb()") ⟨1, 10⟩) = .ok written ∧
        ∀ line, ¬ FallsInto written.bytes [.comment line]) ∧
      (∃ written,
        JavaScript.node 0 (.string (utf8 "\\") ⟨2, 10⟩) = .ok written ∧
        ∀ body, ¬ FallsInto written.bytes [.string body]) ∧
      FallsInto compilation.code
        (.comment (utf8 " Generated by TriforceScript") :: JavaScript.code (utf8 "\n\n") ++
          .comment (utf8 " a") :: JavaScript.code (utf8 "\rb()\nconsole.log(") ++
          .string (utf8 "\\\", ") :: JavaScript.code (utf8 ";c();") ++
          .comment (utf8 "\");") :: JavaScript.code (utf8 "\n")) := by
  have parsed :
      (parse (utf8 "/_\\ a\rb()\nwrite(\"\\\", \";c();//\")")).result = .ok smuggledCode := rfl
  have written :
      JavaScript.file smuggledCode =
        .ok (utf8
          "// Generated by TriforceScript\n\n// a\rb()\nconsole.log(\"\\\", \";c();//\");\n") := by
    decide +kernel
  obtain ⟨tokens, accepted⟩ := exists_compile_eq_ok_iff.mpr ⟨parsed, written⟩
  have isLine : JavaScript.IsLine (utf8 " a") := by decide
  have endsComment (behind : Bytes) : EndsLine (Bytes.carriageReturn :: behind) :=
    .inr ⟨utf8 "\r", by decide, ⟨behind, rfl⟩⟩
  have isBody : JavaScript.IsBody (utf8 "\\\", ") :=
    .escape (by decide) (.plain (by decide) (.plain (by decide) .nil))
  have areCode :
      ∀ text ∈ [utf8 "\r", utf8 "b()", utf8 "b()\nconsole.log(", utf8 ";c();"],
        ∀ byte ∈ text, byte ∈ JavaScript.codeBytes := by
    decide +kernel
  have isCode := areCode (utf8 "\r") (by simp) Bytes.carriageReturn List.mem_cons_self
  refine ⟨⟨tokens, smuggledCode, _⟩, accepted, rfl, ⟨_, by rw [JavaScript.node], ?_⟩,
    ⟨_, by rw [JavaScript.node], ?_⟩, ?_⟩
  · intro line falls
    have called := (Splits.code (areCode (utf8 "b()") (by simp))).fallsInto
    have comment := FallsInto.comment isLine (endsComment _) (.code isCode called)
    cases falls.unique comment
  · intro body falls
    have text :
        Bytes.quote :: (body ++ [Bytes.quote]) ++ [] =
          Bytes.quote :: ([JavaScript.backslash] ++ [Bytes.quote]) :=
      falls.flatMap_bytes
    rw [List.append_nil] at text
    obtain rfl := List.append_cancel_right (List.cons.inj text).2
    have even := (falls.sound (.string _) List.mem_cons_self).even_backslashesAtEnd
    exact absurd even (by decide)
  · have isComment : JavaScript.IsLine (utf8 "\");") := by decide
    have called :=
      Splits.code (areCode (utf8 ";c();") (by simp)) _ _ (Splits.comment isComment).fallsInto
    have line :=
      Splits.code (areCode (utf8 "b()\nconsole.log(") (by simp)) _ _
        (Splits.string isBody _ _ called)
    have falls :=
      JavaScript.splits_banner _ _ (.comment isLine (endsComment _) (.code isCode line))
    dsimp only
    refine Eq.mp (congrArg₂ FallsInto ?_ ?_) falls <;> decide +kernel

end TriforceScript
