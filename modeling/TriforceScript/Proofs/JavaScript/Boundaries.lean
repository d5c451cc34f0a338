import TriforceScript.Proofs.Compilation.Composition
import TriforceScript.Proofs.JavaScript.Reading
import TriforceScript.Proofs.Tree.Untyped

/-!
# Boundaries in generated code

Read from left to right, generated code shows where its parts end.  An expression goes on as
long as there are symbols, arguments go on as long as there are commas, and what a statement
starts with says which one it is.
-/

namespace TriforceScript

open Lexical (IsName)
open Node (IsExpression)

namespace JavaScript

/-! ## Expressions -/

/-- The expression that stands for a term, without places. -/
def Term.tree : Term → Node
  | .name text => .identifier text .origin
  | .string value => .string value .origin
  | .sum (.sum left _) right => .binary (utf8 "->") left.tree right.tree .origin
  | .sum _ _ => .missing
  | .strictEqual left right => .binary (utf8 "==") left.tree right.tree .origin

private theorem tree_of_term? (tree : Node) {term : Term} (isTerm : term? tree = some term) :
    term.tree = tree.erase := by
  match tree with
  | .identifier name pos =>
      rw [term?] at isTerm
      cases isTerm
      rw [Term.tree, Node.erase]
  | .string value pos =>
      rw [term?] at isTerm
      cases isTerm
      rw [Term.tree, Node.erase]
  | .binary operator left right pos =>
      rw [term?] at isTerm
      obtain ⟨leftTerm, isLeft, isTerm⟩ := Option.bind_eq_some_iff.mp isTerm
      obtain ⟨rightTerm, isRight, isTerm⟩ := Option.bind_eq_some_iff.mp isTerm
      have sameLeft := tree_of_term? left isLeft
      have sameRight := tree_of_term? right isRight
      split at isTerm
      · cases isTerm
        subst operator
        rw [Term.tree, Node.erase, sameLeft, sameRight]
      · split at isTerm
        · cases isTerm
          subst operator
          rw [Term.tree, Node.erase, sameLeft, sameRight]
        · cases isTerm
  | .comment _ _ | .declaration _ _ _ _ | .assignment _ _ _ | .branch _ _ _ _ | .block _
  | .write _ _ | .expression _ _ | .missing =>
      simp [term?] at isTerm

/-- What may stand behind an expression. -/
def Ends (behind : Bytes) : Prop :=
  ∃ byte rest, byte ∈ utf8 ";)," ∧ behind = byte :: rest

private theorem Ends.breaks {behind : Bytes} (ends : Ends behind) : Breaks behind := by
  obtain ⟨byte, rest, isEnd, rfl⟩ := ends
  have isMark : ∀ byte ∈ utf8 ";),", byte ∈ marks := by
    decide +kernel
  exact breaks_cons (isMark byte isEnd) rest

private theorem Ends.symbols_eq {behind : Bytes} (ends : Ends behind) :
    symbols behind = ([], behind) := by
  obtain ⟨byte, rest, isEnd, rfl⟩ := ends
  have others : ∀ byte ∈ utf8 ";),",
      byte ∈ marks ∧ ¬ blanks.contains byte = true ∧ byte ≠ Bytes.quote ∧
        byte ≠ 0x2B ∧ byte ≠ 0x3D := by
    decide +kernel
  obtain ⟨isMark, notBlank, notQuote, notPlus, notEquals⟩ := others byte isEnd
  have stays : (byte :: rest).dropWhile blanks.contains = byte :: rest :=
    List.dropWhile_cons_of_neg notBlank
  have missing : front? (byte :: rest) = none := by
    rw [front?, if_neg (notMem_nameStarts isMark), if_neg notQuote, if_neg notPlus,
      if_neg fun both => notEquals both.1]
  rw [symbols_of_front?_eq_none (by rw [stays, missing]), stays]

/-- Where an expression ends can be seen from its text, and which one it is. -/
theorem expression_unique {first second : Node} (isFirst : IsExpression first)
    (isSecond : IsExpression second) {text text' : Rope} (written : node 0 first = .ok text)
    (written' : node 0 second = .ok text') {behind behind' : Bytes} (ends : Ends behind)
    (ends' : Ends behind') (same : text.bytes ++ behind = text'.bytes ++ behind') :
    first.bare = second.bare ∧ behind = behind' := by
  obtain ⟨_, spelling, term, isText, spells, isTerm, reads⟩ := written_expression isFirst
  obtain ⟨_, spelling', term', isText', spells', isTerm', reads'⟩ := written_expression isSecond
  cases isText.symm.trans written
  cases isText'.symm.trans written'
  have read := spells behind ends.breaks
  have read' := spells' behind' ends'.breaks
  rw [same, read', ends.symbols_eq, ends'.symbols_eq, List.append_nil, List.append_nil,
    Prod.mk.injEq] at read
  obtain ⟨rfl, rfl⟩ := read
  cases reads.unique reads'
  have sameTree : first.erase = second.erase :=
    (tree_of_term? first isTerm).symm.trans (tree_of_term? second isTerm')
  exact ⟨congrArg Node.untyped sameTree, rfl⟩

theorem Ends.ne_append {behind behind' : Bytes} (ends : Ends behind) {tree : Node}
    (isExpression : IsExpression tree) {text : Rope} (written : node 0 tree = .ok text)
    (ends' : Ends behind') : behind ≠ text.bytes ++ behind' := by
  intro same
  obtain ⟨_, spelling, term, isText, spells, -, reads⟩ := written_expression isExpression
  cases isText.symm.trans written
  have read := spells behind' ends'.breaks
  rw [← same, ends.symbols_eq, ends'.symbols_eq, List.append_nil, Prod.mk.injEq] at read
  exact reads.ne_nil read.1.symm

/-- The texts of arguments behind the first one, each behind its comma. -/
def further (texts : List Rope) : Bytes :=
  texts.flatMap fun text => utf8 ", " ++ text.bytes

theorem further_cons (text : Rope) (texts : List Rope) (behind : Bytes) :
    further (text :: texts) ++ behind =
      0x2C :: Bytes.space :: (text.bytes ++ (further texts ++ behind)) := by
  rw [further, List.flatMap_cons, List.append_assoc, List.append_assoc]
  rfl

private theorem ends_further (texts : List Rope) (behind : Bytes) :
    Ends (further texts ++ 0x29 :: behind) := by
  cases texts with
  | nil => exact ⟨0x29, behind, by decide, rfl⟩
  | cons text others =>
      rw [further_cons]
      exact ⟨0x2C, _, by decide, rfl⟩

theorem further_unique {first second : List Node}
    (isFirst : ∀ argument ∈ first, IsExpression argument)
    (isSecond : ∀ argument ∈ second, IsExpression argument) {texts texts' : List Rope}
    (written : nodes 0 first = .ok texts) (written' : nodes 0 second = .ok texts')
    {behind behind' : Bytes}
    (same : further texts ++ 0x29 :: behind = further texts' ++ 0x29 :: behind') :
    first.map Node.bare = second.map Node.bare ∧ behind = behind' := by
  induction first generalizing second texts texts' with
  | nil =>
      cases written
      cases second with
      | nil =>
          cases written'
          cases same
          exact ⟨rfl, rfl⟩
      | cons argument' rest' =>
          obtain ⟨text', others', -, -, rfl⟩ := nodes_cons_eq_ok_iff.mp written'
          rw [further_cons] at same
          cases same
  | cons argument rest inductionHypothesis =>
      obtain ⟨text, others, isText, areOthers, rfl⟩ := nodes_cons_eq_ok_iff.mp written
      rw [List.forall_mem_cons] at isFirst
      cases second with
      | nil =>
          cases written'
          rw [further_cons] at same
          cases same
      | cons argument' rest' =>
          obtain ⟨text', others', isText', areOthers', rfl⟩ := nodes_cons_eq_ok_iff.mp written'
          rw [List.forall_mem_cons] at isSecond
          rw [further_cons, further_cons, List.cons.injEq, List.cons.injEq] at same
          obtain ⟨sameArgument, sameRest⟩ := expression_unique isFirst.1 isSecond.1 isText isText'
            (ends_further others behind) (ends_further others' behind') same.2.2
          obtain ⟨sameOthers, sameBehind⟩ :=
            inductionHypothesis isFirst.2 isSecond.2 areOthers areOthers' sameRest
          exact ⟨by rw [List.map_cons, List.map_cons, sameArgument, sameOthers], sameBehind⟩

theorem bytes_separated_cons (separator : Bytes) (text : Rope) (texts : List Rope) :
    (Rope.separated separator (text :: texts)).bytes =
      text.bytes ++ texts.flatMap fun other => separator ++ other.bytes :=
  Rope.bytes_separatedFrom separator text texts

/-- A closing parenthesis is not the text of an argument. -/
private theorem closed_ne_separated {argument : Node} {rest : List Node}
    (isExpression : IsExpression argument) {texts : List Rope}
    (written : nodes 0 (argument :: rest) = .ok texts) (behind behind' : Bytes) :
    0x29 :: behind ≠ (Rope.separated (utf8 ", ") texts).bytes ++ 0x29 :: behind' := by
  obtain ⟨text, others, isText, -, rfl⟩ := nodes_cons_eq_ok_iff.mp written
  rw [bytes_separated_cons, ← further, List.append_assoc]
  exact Ends.ne_append ⟨0x29, behind, by decide, rfl⟩ isExpression isText
    (ends_further others behind')

theorem arguments_unique {first second : List Node}
    (isFirst : ∀ argument ∈ first, IsExpression argument)
    (isSecond : ∀ argument ∈ second, IsExpression argument) {texts texts' : List Rope}
    (written : nodes 0 first = .ok texts) (written' : nodes 0 second = .ok texts')
    {behind behind' : Bytes}
    (same :
      (Rope.separated (utf8 ", ") texts).bytes ++ 0x29 :: behind =
        (Rope.separated (utf8 ", ") texts').bytes ++ 0x29 :: behind') :
    first.map Node.bare = second.map Node.bare ∧ behind = behind' := by
  cases first with
  | nil =>
      cases written
      cases second with
      | nil =>
          cases written'
          cases same
          exact ⟨rfl, rfl⟩
      | cons argument' rest' =>
          have isArgument' := isSecond argument' List.mem_cons_self
          exact (closed_ne_separated isArgument' written' behind behind' same).elim
  | cons argument rest =>
      cases second with
      | nil =>
          cases written'
          have isArgument := isFirst argument List.mem_cons_self
          exact (closed_ne_separated isArgument written behind' behind same.symm).elim
      | cons argument' rest' =>
          -- With one more comma in front, the first arguments are like all the others.
          apply further_unique isFirst isSecond written written'
          obtain ⟨text, others, -, -, rfl⟩ := nodes_cons_eq_ok_iff.mp written
          obtain ⟨text', others', -, -, rfl⟩ := nodes_cons_eq_ok_iff.mp written'
          rw [bytes_separated_cons, bytes_separated_cons, ← further, ← further,
            List.append_assoc, List.append_assoc] at same
          rw [further_cons, further_cons, same]

/-! ## How statements start -/

/-- What a statement starts with, up to its first expression. -/
inductive Lead where
  | comment
  | declaration (name : Bytes)
  | assignment (name : Bytes)
  | branch
  | write

namespace Lead

/-- The word that a statement starts with. -/
def word : Lead → Bytes
  | .comment => []
  | .declaration _ => utf8 "let"
  | .assignment name => name
  | .branch => utf8 "if"
  | .write => utf8 "console"

/-- What stands between the first word of a statement and its first expression. -/
def mark : Lead → Bytes
  | .comment => utf8 "// "
  | .declaration name => utf8 " " ++ (name ++ utf8 " = ")
  | .assignment _ => utf8 " = "
  | .branch => utf8 " ("
  | .write => utf8 ".log("

def bytes (lead : Lead) : Bytes :=
  lead.word ++ lead.mark

def Named : Lead → Prop
  | .declaration name => IsName name
  | .assignment name => IsName name
  | _ => True

/-- How a text starts, and what follows. -/
def read (text : Bytes) : Lead × Bytes :=
  let rest := text.dropWhile nameBytes.contains
  if rest.take 2 = utf8 "//" then
    (.comment, rest.drop 3)
  else if rest.take 2 = utf8 " =" then
    (.assignment (text.takeWhile nameBytes.contains), rest.drop 3)
  else if rest.take 2 = utf8 " (" then
    (.branch, rest.drop 2)
  else if rest.take 2 = utf8 ".l" then
    (.write, rest.drop 5)
  else
    (.declaration (rest.tail.takeWhile nameBytes.contains),
      (rest.tail.dropWhile nameBytes.contains).drop 3)

private theorem mem_nameBytes_of_mem_word {lead : Lead} (named : lead.Named) :
    ∀ byte ∈ lead.word, byte ∈ nameBytes := by
  cases lead with
  | assignment name => exact mem_nameBytes_of_isWord named.1
  | comment | declaration _ | branch | write =>
      rw [word]
      decide +kernel

private theorem breaks_mark (lead : Lead) (behind : Bytes) : Breaks (lead.mark ++ behind) := by
  cases lead with
  | _ => exact breaks_cons (by decide) _

/-- Which statement a text starts with can be seen. -/
theorem read_bytes {lead : Lead} (named : lead.Named) (behind : Bytes) :
    read (lead.bytes ++ behind) = (lead, behind) := by
  obtain ⟨taken, dropped⟩ := (breaks_mark lead behind).span (mem_nameBytes_of_mem_word named)
  rw [bytes, List.append_assoc, read]
  simp only [taken, dropped]
  cases lead with
  | comment =>
      have sign : (mark .comment ++ behind).take 2 = utf8 "//" := rfl
      rw [sign, if_pos rfl]
      rfl
  | declaration name =>
      obtain ⟨first, others, shape, isLetter, -⟩ := named.1
      have sign : (mark (.declaration name) ++ behind).take 2 = [Bytes.space, first] := by
        rw [shape]
        rfl
      have noOther : ∀ byte ∈ Lexical.letters,
          [Bytes.space, byte] ≠ utf8 "//" ∧ [Bytes.space, byte] ≠ utf8 " =" ∧
            [Bytes.space, byte] ≠ utf8 " (" ∧ [Bytes.space, byte] ≠ utf8 ".l" := by
        decide +kernel
      obtain ⟨notComment, notAssignment, notBranch, notWrite⟩ := noOther first isLetter
      have inner : (mark (.declaration name) ++ behind).tail = name ++ (utf8 " = " ++ behind) := by
        rw [mark, List.append_assoc, List.append_assoc]
        rfl
      have breaks : Breaks (utf8 " = " ++ behind) := breaks_mark (.assignment name) behind
      obtain ⟨takenName, droppedName⟩ := breaks.span (mem_nameBytes_of_isWord named.1)
      rw [sign, if_neg notComment, if_neg notAssignment, if_neg notBranch, if_neg notWrite, inner,
        takenName, droppedName]
      rfl
  | assignment name =>
      have sign : (mark (.assignment name) ++ behind).take 2 = utf8 " =" := rfl
      rw [sign, if_neg (by decide), if_pos rfl]
      rfl
  | branch =>
      have sign : (mark .branch ++ behind).take 2 = utf8 " (" := rfl
      rw [sign, if_neg (by decide), if_neg (by decide), if_pos rfl]
      rfl
  | write =>
      have sign : (mark .write ++ behind).take 2 = utf8 ".l" := rfl
      rw [sign, if_neg (by decide), if_neg (by decide), if_neg (by decide), if_pos rfl]
      rfl

end Lead

end JavaScript

end TriforceScript
