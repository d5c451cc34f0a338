import TriforceScript.Proofs.JavaScript.Boundaries
import TriforceScript.Proofs.JavaScript.Failure

/-!
# Generated code determines the program

Two programs with the same code differ at most in places and types.  The code can be read back
line by line: the text of a statement shows where it ends, and the indentation of what follows
shows where a block ends.
-/

namespace TriforceScript

open Lexical (IsName)
open Node (IsExpression IsStatement)

namespace JavaScript

/-! ## Statements -/

/-- `Line depth tree lead tail` means that `tree` is a statement with a text at `depth`, which
starts with `lead` and goes on with `tail`. -/
inductive Line (depth : Nat) : Node → Lead → Bytes → Prop
  | comment {text : Bytes} {pos : Position} :
      Bytes.lineFeed ∉ text → Line depth (.comment text pos) .comment text
  | declaration {name type : Bytes} {value : Node} {pos : Position} {text : Rope} :
      IsName name → IsExpression value → node 0 value = .ok text →
      Line depth (.declaration name type value pos) (.declaration name) (text.bytes ++ utf8 ";")
  | assignment {name : Bytes} {value : Node} {pos : Position} {text : Rope} :
      IsName name → IsExpression value → node 0 value = .ok text →
      Line depth (.assignment name value pos) (.assignment name) (text.bytes ++ utf8 ";")
  | branch {condition : Node} {body : List Node} {brace pos : Position} {text : Rope}
      {lines : List Rope} :
      IsExpression condition → (∀ statement ∈ body, IsStatement statement) →
      node 0 condition = .ok text → nodes (depth + 1) body = .ok lines →
      Line depth (.branch condition (.braced body brace) .missing pos) .branch
        (text.bytes ++ (utf8 ") \x7b\n" ++
          ((Rope.separated (utf8 "\n") lines).bytes ++ (utf8 "\n" ++ (indent depth ++ utf8 "\x7d")))))
  | write {arguments : List Node} {pos : Position} {texts : List Rope} :
      (∀ argument ∈ arguments, IsExpression argument) → nodes 0 arguments = .ok texts →
      Line depth (.write arguments pos) .write
        ((Rope.separated (utf8 ", ") texts).bytes ++ utf8 ");")

private theorem Line.named {depth : Nat} {tree : Node} {lead : Lead} {tail : Bytes}
    (line : Line depth tree lead tail) : lead.Named := by
  cases line with
  | declaration isName _ _ | assignment isName _ _ => exact isName
  | comment _ | branch _ _ _ _ | write _ _ => trivial

private theorem exists_line {depth : Nat} {tree : Node} {text : Rope}
    (isStatement : IsStatement tree) (written : node depth tree = .ok text) :
    ∃ lead tail, Line depth tree lead tail ∧ text.bytes = indent depth ++ (lead.bytes ++ tail) := by
  cases isStatement with
  | comment noLineFeed _ =>
      rw [node] at written
      cases written
      refine ⟨_, _, .comment noLineFeed, ?_⟩
      simp [Lead.bytes, Lead.word, Lead.mark]
  | declaration isName _ isExpression =>
      rw [node] at written
      obtain ⟨valueText, isText, written⟩ := bind_eq_ok_iff.mp written
      cases written
      refine ⟨_, _, .declaration isName isExpression isText, ?_⟩
      have word : utf8 "let " = utf8 "let" ++ utf8 " " := rfl
      simp [Lead.bytes, Lead.word, Lead.mark, word]
  | assignment isName isExpression =>
      rw [node] at written
      obtain ⟨valueText, isText, written⟩ := bind_eq_ok_iff.mp written
      cases written
      refine ⟨_, _, .assignment isName isExpression isText, ?_⟩
      simp [Lead.bytes, Lead.word, Lead.mark]
  | branch isCondition isBody =>
      rw [node] at written
      obtain ⟨conditionText, isText, written⟩ := bind_eq_ok_iff.mp written
      obtain ⟨bodyText, isBodyText, written⟩ := bind_eq_ok_iff.mp written
      rw [block] at isBodyText
      obtain ⟨lines, areLines, isBodyText⟩ := bind_eq_ok_iff.mp isBodyText
      cases isBodyText
      cases written
      refine ⟨_, _, .branch isCondition isBody isText areLines, ?_⟩
      have word : utf8 "if (" = utf8 "if" ++ utf8 " (" := rfl
      have opened : utf8 ") \x7b\n" = utf8 ") " ++ utf8 "\x7b\n" := rfl
      simp [Lead.bytes, Lead.word, Lead.mark, word, opened]
  | write areExpressions =>
      rw [node] at written
      obtain ⟨texts, areTexts, written⟩ := bind_eq_ok_iff.mp written
      cases written
      refine ⟨_, _, .write areExpressions areTexts, ?_⟩
      have word : utf8 "console.log(" = utf8 "console" ++ utf8 ".log(" := rfl
      simp [Lead.bytes, Lead.word, Lead.mark, word]
  | expression _ =>
      rw [node] at written
      cases written

/-- Where the text of a statement ends can be seen from what follows its start, and which
statement it is. -/
def Unique (tree : Node) : Prop :=
  ∀ {depth : Nat} {lead : Lead} {tail : Bytes}, Line depth tree lead tail →
    ∀ {other : Node} {tail' : Bytes}, Line depth other lead tail' →
    ∀ {behind behind' : Bytes},
      tail ++ Bytes.lineFeed :: behind = tail' ++ Bytes.lineFeed :: behind' →
      tree.bare = other.bare ∧ behind = behind'

/-- No line at `depth` follows. -/
def Stops (depth : Nat) (rest : Bytes) : Prop :=
  ∀ byte behind, rest ≠ indent depth ++ byte :: behind

/-- The texts of lines, a line feed behind each. -/
def joinLines (texts : List Rope) : Bytes :=
  texts.flatMap fun text => text.bytes ++ [Bytes.lineFeed]

theorem joinLines_cons (text : Rope) (texts : List Rope) (behind : Bytes) :
    joinLines (text :: texts) ++ behind =
      text.bytes ++ Bytes.lineFeed :: (joinLines texts ++ behind) := by
  simp [joinLines]

theorem exists_line_cons {depth : Nat} {tree : Node} {rest : List Node} {texts : List Rope}
    (areStatements : ∀ statement ∈ tree :: rest, IsStatement statement)
    (written : nodes depth (tree :: rest) = .ok texts) (behind : Bytes) :
    ∃ lead tail others,
      Line depth tree lead tail ∧ nodes depth rest = .ok others ∧
      joinLines texts ++ behind =
        indent depth ++ (lead.bytes ++ (tail ++ Bytes.lineFeed :: (joinLines others ++ behind))) := by
  obtain ⟨text, others, isText, areOthers, rfl⟩ := nodes_cons_eq_ok_iff.mp written
  obtain ⟨lead, tail, line, shape⟩ := exists_line (areStatements tree List.mem_cons_self) isText
  refine ⟨lead, tail, others, line, areOthers, ?_⟩
  rw [joinLines_cons, shape]
  simp only [List.append_assoc]

private theorem Stops.ne_joinLines {depth : Nat} {rest : Bytes} (stops : Stops depth rest)
    {tree : Node} {trees : List Node} {texts : List Rope}
    (areStatements : ∀ statement ∈ tree :: trees, IsStatement statement)
    (written : nodes depth (tree :: trees) = .ok texts) (behind : Bytes) :
    rest ≠ joinLines texts ++ behind := by
  obtain ⟨lead, tail, others, -, -, shape⟩ := exists_line_cons areStatements written behind
  have nonempty : lead.bytes ++ (tail ++ Bytes.lineFeed :: (joinLines others ++ behind)) ≠ [] := by
    simp
  obtain ⟨byte, more, isCons⟩ := List.exists_cons_of_ne_nil nonempty
  rw [shape, isCons]
  exact stops byte more

theorem lines_unique {depth : Nat} {first second : List Node}
    (unique : ∀ statement ∈ first, Unique statement)
    (isFirst : ∀ statement ∈ first, IsStatement statement)
    (isSecond : ∀ statement ∈ second, IsStatement statement) {texts texts' : List Rope}
    (written : nodes depth first = .ok texts) (written' : nodes depth second = .ok texts')
    {behind behind' : Bytes} (stops : Stops depth behind) (stops' : Stops depth behind')
    (same : joinLines texts ++ behind = joinLines texts' ++ behind') :
    first.map Node.bare = second.map Node.bare ∧ behind = behind' := by
  induction first generalizing second texts texts' with
  | nil =>
      cases written
      cases second with
      | nil =>
          cases written'
          exact ⟨rfl, same⟩
      | cons tree' rest' =>
          exact (stops.ne_joinLines isSecond written' behind' same).elim
  | cons tree rest inductionHypothesis =>
      cases second with
      | nil =>
          cases written'
          exact (stops'.ne_joinLines isFirst written behind same.symm).elim
      | cons tree' rest' =>
          obtain ⟨lead, tail, others, line, areOthers, shape⟩ :=
            exists_line_cons isFirst written behind
          obtain ⟨lead', tail', others', line', areOthers', shape'⟩ :=
            exists_line_cons isSecond written' behind'
          rw [shape, shape'] at same
          have sameLines := congrArg Lead.read (List.append_cancel_left same)
          rw [Lead.read_bytes line.named, Lead.read_bytes line'.named, Prod.mk.injEq] at sameLines
          obtain ⟨rfl, sameTails⟩ := sameLines
          obtain ⟨sameTree, sameRest⟩ := unique tree List.mem_cons_self line line' sameTails
          rw [List.forall_mem_cons] at unique isFirst isSecond
          obtain ⟨sameOthers, sameBehind⟩ :=
            inductionHypothesis unique.2 isFirst.2 isSecond.2 areOthers areOthers' sameRest
          exact ⟨by rw [List.map_cons, List.map_cons, sameTree, sameOthers], sameBehind⟩

/-! ## Blocks -/

theorem bytes_separated_lines {text : Rope} {texts : List Rope} (behind : Bytes) :
    (Rope.separated (utf8 "\n") (text :: texts)).bytes ++ Bytes.lineFeed :: behind =
      joinLines (text :: texts) ++ behind := by
  induction texts generalizing text with
  | nil =>
      simp [bytes_separated_cons, joinLines]
  | cons second others inductionHypothesis =>
      rw [joinLines_cons, ← inductionHypothesis, bytes_separated_cons, bytes_separated_cons,
        List.flatMap_cons]
      simp only [List.append_assoc]
      rfl

/-- The brace that closes a block stands further to the left than its statements. -/
private theorem stops_brace (depth : Nat) (behind : Bytes) :
    Stops (depth + 1) (indent depth ++ 0x7D :: behind) := by
  intro byte more same
  have deeper : indent (depth + 1) = indent depth ++ [Bytes.space, Bytes.space] := by
    rw [indent, indent, Nat.mul_succ, ← List.replicate_append_replicate]
    rfl
  rw [deeper, List.append_assoc] at same
  cases List.append_cancel_left same

/-- The empty line of an empty block is no line of a block that has statements. -/
private theorem lineFeed_ne_separated {depth : Nat} {tree : Node} {rest : List Node}
    {lines : List Rope} (areStatements : ∀ statement ∈ tree :: rest, IsStatement statement)
    (written : nodes (depth + 1) (tree :: rest) = .ok lines) (behind behind' : Bytes) :
    Bytes.lineFeed :: behind ≠
      (Rope.separated (utf8 "\n") lines).bytes ++ Bytes.lineFeed :: behind' := by
  obtain ⟨lead, tail, others, -, -, shape⟩ := exists_line_cons areStatements written behind'
  obtain ⟨text, texts, -, -, rfl⟩ := nodes_cons_eq_ok_iff.mp written
  have indented : indent (depth + 1) = Bytes.space :: List.replicate (2 * depth + 1) Bytes.space :=
    rfl
  rw [bytes_separated_lines, shape, indented]
  intro same
  cases same

theorem block_unique {depth : Nat} {first second : List Node}
    (unique : ∀ statement ∈ first, Unique statement)
    (isFirst : ∀ statement ∈ first, IsStatement statement)
    (isSecond : ∀ statement ∈ second, IsStatement statement) {lines lines' : List Rope}
    (written : nodes (depth + 1) first = .ok lines)
    (written' : nodes (depth + 1) second = .ok lines') {behind behind' : Bytes}
    (same :
      (Rope.separated (utf8 "\n") lines).bytes ++
          Bytes.lineFeed :: (indent depth ++ 0x7D :: behind) =
        (Rope.separated (utf8 "\n") lines').bytes ++
          Bytes.lineFeed :: (indent depth ++ 0x7D :: behind')) :
    first.map Node.bare = second.map Node.bare ∧ behind = behind' := by
  cases first with
  | nil =>
      cases written
      cases second with
      | nil =>
          cases written'
          have sameBehind := List.append_cancel_left same
          rw [List.cons.injEq, List.append_cancel_left_eq, List.cons.injEq] at sameBehind
          exact ⟨rfl, sameBehind.2.2⟩
      | cons tree' rest' =>
          exact (lineFeed_ne_separated isSecond written' _ _ same).elim
  | cons tree rest =>
      cases second with
      | nil =>
          cases written'
          exact (lineFeed_ne_separated isFirst written _ _ same.symm).elim
      | cons tree' rest' =>
          obtain ⟨text, texts, -, -, rfl⟩ := nodes_cons_eq_ok_iff.mp written
          obtain ⟨text', texts', -, -, rfl⟩ := nodes_cons_eq_ok_iff.mp written'
          rw [bytes_separated_lines, bytes_separated_lines] at same
          obtain ⟨sameBody, sameBehind⟩ := lines_unique unique isFirst isSecond written written'
            (stops_brace depth behind) (stops_brace depth behind') same
          rw [List.append_cancel_left_eq, List.cons.injEq] at sameBehind
          exact ⟨sameBody, sameBehind.2⟩

/-- A value and the semicolon behind it. -/
private theorem value_unique {first second : Node} (isFirst : IsExpression first)
    (isSecond : IsExpression second) {text text' : Rope} (written : node 0 first = .ok text)
    (written' : node 0 second = .ok text') {behind behind' : Bytes}
    (same :
      text.bytes ++ utf8 ";" ++ Bytes.lineFeed :: behind =
        text'.bytes ++ utf8 ";" ++ Bytes.lineFeed :: behind') :
    first.bare = second.bare ∧ behind = behind' := by
  rw [List.append_assoc, List.append_assoc] at same
  have ends (rest : Bytes) : Ends (utf8 ";" ++ Bytes.lineFeed :: rest) :=
    ⟨0x3B, _, by decide, rfl⟩
  obtain ⟨sameValue, sameBehind⟩ := expression_unique isFirst isSecond written written'
    (ends behind) (ends behind') same
  cases sameBehind
  exact ⟨sameValue, rfl⟩

private theorem unique_of_isStatement {tree : Node} (isStatement : IsStatement tree) :
    Unique tree := by
  induction isStatement with
  | comment _ _ =>
      intro depth lead tail line other tail' line' behind behind' same
      cases line with
      | comment noLineFeed =>
          cases line' with
          | comment noLineFeed' =>
              obtain ⟨rfl, rfl⟩ := append_cons_inj noLineFeed noLineFeed' same
              exact ⟨rfl, rfl⟩
  | declaration _ _ _ =>
      intro depth lead tail line other tail' line' behind behind' same
      cases line with
      | declaration _ isValue written =>
          cases line' with
          | declaration _ isValue' written' =>
              obtain ⟨sameValue, sameBehind⟩ := value_unique isValue isValue' written written' same
              refine ⟨?_, sameBehind⟩
              show Node.declaration _ [] (Node.bare _) .origin = .declaration _ [] (Node.bare _) .origin
              rw [sameValue]
  | assignment _ _ =>
      intro depth lead tail line other tail' line' behind behind' same
      cases line with
      | assignment _ isValue written =>
          cases line' with
          | assignment _ isValue' written' =>
              obtain ⟨sameValue, sameBehind⟩ := value_unique isValue isValue' written written' same
              refine ⟨?_, sameBehind⟩
              show Node.assignment _ (Node.bare _) .origin = .assignment _ (Node.bare _) .origin
              rw [sameValue]
  | branch _ _ inductionHypothesis =>
      intro depth lead tail line other tail' line' behind behind' same
      cases line with
      | branch isCondition isBody written areLines =>
          cases line' with
          | branch isCondition' isBody' written' areLines' =>
              simp only [List.append_assoc] at same
              have ends (rest : Bytes) : Ends (utf8 ") \x7b\n" ++ rest) :=
                ⟨0x29, _, by decide, rfl⟩
              obtain ⟨sameCondition, sameBlock⟩ :=
                expression_unique isCondition isCondition' written written' (ends _) (ends _) same
              obtain ⟨sameBody, sameBehind⟩ := block_unique inductionHypothesis isBody isBody'
                areLines areLines' (List.append_cancel_left sameBlock)
              cases sameBehind
              exact ⟨by rw [Node.bare_branch, Node.bare_branch, sameCondition, sameBody], rfl⟩
  | write _ =>
      intro depth lead tail line other tail' line' behind behind' same
      cases line with
      | write areArguments written =>
          cases line' with
          | write areArguments' written' =>
              rw [List.append_assoc, List.append_assoc] at same
              obtain ⟨sameArguments, sameBehind⟩ :=
                arguments_unique areArguments areArguments' written written' same
              cases sameBehind
              exact ⟨by rw [Node.bare_write, Node.bare_write, sameArguments], rfl⟩
  | expression _ =>
      intro depth lead tail line
      cases line

/-! ## Programs -/

theorem statements_eq_joinLines {program : Program} {code : Bytes}
    (written : statements program = .ok code) :
    ∃ texts, nodes 0 program = .ok texts ∧ joinLines texts = code := by
  obtain ⟨texts, areTexts, rfl⟩ := statements_eq_ok_iff.mp written
  refine ⟨texts, areTexts, ?_⟩
  simp only [joinLines, Rope.onto_eq_append]

private theorem bare_eq_of_statements_eq {first second : Program} (isFirst : first.WellFormed)
    (isSecond : second.WellFormed) {code : Bytes} (written : statements first = .ok code)
    (written' : statements second = .ok code) :
    first.map Node.bare = second.map Node.bare := by
  obtain ⟨texts, areTexts, shape⟩ := statements_eq_joinLines written
  obtain ⟨texts', areTexts', shape'⟩ := statements_eq_joinLines written'
  have unique : ∀ statement ∈ first, Unique statement := by
    intro statement member
    exact unique_of_isStatement (isFirst statement member)
  have stops : Stops 0 [] := by
    intro byte behind same
    cases same
  have same : joinLines texts ++ [] = joinLines texts' ++ [] := by
    rw [shape, shape']
  exact (lines_unique unique isFirst isSecond areTexts areTexts' stops stops same).1

end JavaScript

/-- Parsed programs have the same code exactly if they differ at most in places and types. -/
theorem code_eq_iff_of_parse {firstSource secondSource : Bytes} {first second : Program}
    (firstParsed : (parse firstSource).result = .ok first)
    (secondParsed : (parse secondSource).result = .ok second) {firstCode secondCode : Bytes}
    (firstWritten : JavaScript.statements first = .ok firstCode)
    (secondWritten : JavaScript.statements second = .ok secondCode) :
    firstCode = secondCode ↔ first.map Node.bare = second.map Node.bare := by
  constructor
  · rintro rfl
    exact JavaScript.bare_eq_of_statements_eq (wellFormed_of_parse firstParsed)
      (wellFormed_of_parse secondParsed) firstWritten secondWritten
  · intro same
    have sameCode : JavaScript.statements first = JavaScript.statements second := by
      rw [← JavaScript.statements_bare first, same, JavaScript.statements_bare]
    rw [firstWritten, secondWritten] at sameCode
    exact Except.ok.inj sameCode

/-- A declaration, with the type and the places that it has in a source text. -/
def declared (type : Bytes) (column : Int) : Program :=
  [.declaration (utf8 "x") type (.identifier (utf8 "y") ⟨1, column⟩) ⟨1, 2⟩]

theorem code_eq_iff_declared :
    (parse (utf8 "x :: [Int] -> y")).result = .ok (declared (utf8 "Int") 16) ∧
    (parse (utf8 "x::[Text]->y")).result = .ok (declared (utf8 "Text") 13) ∧
    JavaScript.statements (declared (utf8 "Int") 16) = .ok (utf8 "let x = y;\n") ∧
    (declared (utf8 "Int") 16).map Node.bare = (declared (utf8 "Text") 13).map Node.bare := by
  have firstParsed :
      (parse (utf8 "x :: [Int] -> y")).result = .ok (declared (utf8 "Int") 16) :=
    rfl
  have secondParsed : (parse (utf8 "x::[Text]->y")).result = .ok (declared (utf8 "Text") 13) :=
    rfl
  have firstWritten :
      JavaScript.statements (declared (utf8 "Int") 16) = .ok (utf8 "let x = y;\n") :=
    rfl
  have secondWritten :
      JavaScript.statements (declared (utf8 "Text") 13) = .ok (utf8 "let x = y;\n") :=
    rfl
  exact ⟨firstParsed, secondParsed, firstWritten,
    (code_eq_iff_of_parse firstParsed secondParsed firstWritten secondWritten).mp rfl⟩

end TriforceScript
