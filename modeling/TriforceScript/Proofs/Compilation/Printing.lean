import TriforceScript.Proofs.Compilation.Composition
import TriforceScript.Proofs.Compilation.Parsed
import TriforceScript.Proofs.Scan.Layout

/-!
# Printing programs as source texts

Every program of the language can be printed as lexemes and laid out with blanks in any way.
Parsing such a text gives the program back, up to places.
-/

namespace TriforceScript

open Lexeme (IsRun Lays Whole made)
open Lexical (IsName IsWord marks)
open Node (IsOperand IsJoin IsExpression IsStatement)

/-! ## The lexemes of a program -/

namespace Lexeme

def quoted (value : Bytes) : Lexeme :=
  ⟨.string, Bytes.quote :: value ++ [Bytes.quote]⟩

/-- A comment with a blank behind its marker. -/
def remark (text : Bytes) : Lexeme :=
  ⟨.comment, utf8 "/_\\ " ++ text⟩

def word (word : Bytes) : Lexeme :=
  ⟨.word, word⟩

def mark (kind : Token.Kind) (spelling : String) : Lexeme :=
  ⟨.mark kind, utf8 spelling⟩

end Lexeme

open Lexeme (quoted remark word mark)

namespace Node

/-- The lexemes of an expression. -/
def spelling : Node → List Lexeme
  | .identifier name _ => [word name]
  | .string value _ => [quoted value]
  | .binary operator left right _ =>
      if operator = utf8 "->" then
        left.spelling ++ mark .arrow "->" :: right.spelling
      else
        left.spelling ++ mark .equalsEquals "==" :: right.spelling
  | _ => []

/-- The lexemes of expressions with commas between them. -/
def spellingAll : List Node → List Lexeme
  | [] => []
  | first :: rest =>
      first.spelling ++ rest.flatMap fun argument => mark .comma "," :: argument.spelling

/-- Whether the first operand of an expression is a name. -/
def startsWithName : Node → Bool
  | .identifier _ _ => true
  | .binary _ left _ _ => left.startsWithName
  | _ => false

end Node

/-- `Prints program lexemes` means that `lexemes` are a way to write `program`.  An expression by
itself that starts with a name has some other name in front of it. -/
inductive Prints : Program → List Lexeme → Prop
  | nil : Prints [] []
  | comment {text : Bytes} {pos : Position} {rest : Program} {lexemes : List Lexeme} :
      Prints rest lexemes →
      Prints (.comment text pos :: rest) (remark text :: lexemes)
  | declaration {name type : Bytes} {value : Node} {pos : Position} {rest : Program}
      {lexemes : List Lexeme} :
      Prints rest lexemes →
      Prints (.declaration name type value pos :: rest)
        ([word name, mark .typeMark "::", mark .typeOpen "[", word type, mark .typeClose "]",
          mark .arrow "->"] ++ value.spelling ++ lexemes)
  | assignment {name : Bytes} {value : Node} {pos : Position} {rest : Program}
      {lexemes : List Lexeme} :
      Prints rest lexemes →
      Prints (.assignment name value pos :: rest)
        ([word name, mark .arrow "->"] ++ value.spelling ++ lexemes)
  | branch {condition : Node} {body : List Node} {brace pos : Position} {rest : Program}
      {inner lexemes : List Lexeme} :
      Prints body inner →
      Prints rest lexemes →
      Prints (.branch condition (.braced body brace) .missing pos :: rest)
        ([word (utf8 "if"), mark .arrow "->"] ++ condition.spelling ++
          [mark .doubleArrow "=>", mark .leftBrace "\x7b"] ++ inner ++
          [mark .rightBrace "\x7d"] ++ lexemes)
  | write {arguments : List Node} {pos : Position} {rest : Program} {lexemes : List Lexeme} :
      Prints rest lexemes →
      Prints (.write arguments pos :: rest)
        ([word (utf8 "write"), mark .leftParen "("] ++ Node.spellingAll arguments ++
          [mark .rightParen ")"] ++ lexemes)
  | expression {value : Node} {pos : Position} {rest : Program} {lexemes : List Lexeme} :
      value.startsWithName = false →
      Prints rest lexemes →
      Prints (.expression value pos :: rest) (value.spelling ++ lexemes)
  | named {value : Node} {pos : Position} {name : Bytes} {rest : Program}
      {lexemes : List Lexeme} :
      value.startsWithName = true →
      IsName name →
      Prints rest lexemes →
      Prints (.expression value pos :: rest) ([word name] ++ value.spelling ++ lexemes)

/-! ## Every printed lexeme can be cut off -/

namespace Node

private theorem IsOperand.whole {tree : Node} (isOperand : IsOperand tree) :
    ∀ lexeme ∈ tree.spelling, lexeme.Whole := by
  cases isOperand with
  | identifier isName =>
      rw [spelling, List.forall_mem_singleton]
      exact Lexeme.whole_word isName.1
  | string noQuote =>
      rw [spelling, List.forall_mem_singleton]
      exact Lexeme.whole_string noQuote

private theorem IsJoin.whole {tree : Node} (isJoin : IsJoin tree) :
    ∀ lexeme ∈ tree.spelling, lexeme.Whole := by
  induction isJoin with
  | operand isOperand => exact isOperand.whole
  | join _ isOperand inductionHypothesis =>
      rw [spelling, if_pos rfl, List.forall_mem_append, List.forall_mem_cons]
      exact ⟨inductionHypothesis, Lexeme.whole_mark (by decide), isOperand.whole⟩

private theorem IsExpression.whole {tree : Node} (isExpression : IsExpression tree) :
    ∀ lexeme ∈ tree.spelling, lexeme.Whole := by
  induction isExpression with
  | join isJoin => exact isJoin.whole
  | compare _ isJoin inductionHypothesis =>
      rw [spelling, if_neg (by decide), List.forall_mem_append, List.forall_mem_cons]
      exact ⟨inductionHypothesis, Lexeme.whole_mark (by decide), isJoin.whole⟩

private theorem whole_spellingAll {arguments : List Node}
    (areExpressions : ∀ argument ∈ arguments, IsExpression argument) :
    ∀ lexeme ∈ spellingAll arguments, lexeme.Whole := by
  cases arguments with
  | nil =>
      intro lexeme member
      cases member
  | cons first rest =>
      rw [List.forall_mem_cons] at areExpressions
      rw [spellingAll, List.forall_mem_append]
      refine ⟨areExpressions.1.whole, ?_⟩
      intro lexeme member
      obtain ⟨argument, isArgument, inArgument⟩ := List.mem_flatMap.mp member
      rcases List.mem_cons.mp inArgument with rfl | inSpelling
      · exact Lexeme.whole_mark (by decide)
      · exact (areExpressions.2 argument isArgument).whole lexeme inSpelling

end Node

/-! ## Every printed expression has a derivation -/

namespace Lexeme

private theorem made_mark (kind : Token.Kind) (spelling : String) (rest : List Lexeme) :
    made (mark kind spelling :: rest) = ⟨kind, utf8 spelling, .origin⟩ :: made rest :=
  rfl

private theorem made_name {name : Bytes} (isName : IsName name) (rest : List Lexeme) :
    made (word name :: rest) = ⟨.identifier, name, .origin⟩ :: made rest := by
  have isKind : (word name).kind? = some .identifier := by
    rw [word, kind?, Token.Kind.ofWord, if_neg isName.2.1, if_neg isName.2.2]
  rw [made, List.filterMap_cons, token?, isKind]
  rfl

private theorem made_quoted (value : Bytes) (rest : List Lexeme) :
    made (quoted value :: rest) = ⟨.string, value, .origin⟩ :: made rest := by
  have isText : (quoted value).text = value := by
    simp [quoted, text]
  have isToken : (quoted value).token? .origin = some ⟨.string, value, .origin⟩ := by
    rw [token?, isText]
    rfl
  rw [made, List.filterMap_cons, isToken]
  rfl

private theorem made_remark {text : Bytes} (trimmed : text.trim = text) (rest : List Lexeme) :
    made (remark text :: rest) = ⟨.comment, text, .origin⟩ :: made rest := by
  have isText : (remark text).text = text := by
    show Bytes.trim (Bytes.space :: text) = text
    rw [Bytes.trim_space_cons, trimmed]
  have isToken : (remark text).token? .origin = some ⟨.comment, text, .origin⟩ := by
    rw [token?, isText]
    rfl
  rw [made, List.filterMap_cons, isToken]
  rfl

end Lexeme

namespace Grammar

/-- A token of a given category and text, without a place. -/
def Terminal.placeless (kind : Token.Kind) (text : Bytes) : Terminal kind :=
  ⟨⟨kind, text, .origin⟩, rfl⟩

namespace Chain

variable {operator : Token.Kind} {Item : Type}

/-- A chain and one more item behind its operator. -/
def snoc (chain : Chain operator Item) (mark : Terminal operator) (item : Item) :
    Chain operator Item :=
  ⟨chain.first, chain.rest ++ [(mark, item)]⟩

private theorem tokens_snoc (itemTokens : Item → List Token) (chain : Chain operator Item)
    (mark : Terminal operator) (item : Item) :
    tokens itemTokens (chain.snoc mark item) =
      tokens itemTokens chain ++ mark.token :: itemTokens item := by
  simp [tokens, snoc, linkTokens]

private theorem node_snoc (name : Bytes) (itemNode : Item → Node) (chain : Chain operator Item)
    (mark : Terminal operator) (item : Item) :
    node name itemNode (chain.snoc mark item) =
      .binary name (node name itemNode chain) (itemNode item) mark.token.pos := by
  simp [node, snoc, linkNode]

end Chain

end Grammar

open Grammar (Operand Join Expression Arguments Terminal)

namespace Node

private theorem IsOperand.exists_operand {tree : Node} (isOperand : IsOperand tree) :
    ∃ operand : Operand,
      [operand.token] = made tree.spelling ∧ operand.node.erase = tree.erase ∧
      operand.isName = tree.startsWithName := by
  cases isOperand with
  | @identifier name pos isName =>
      refine ⟨.name (.placeless .identifier name), ?_, ?_, rfl⟩
      · rw [spelling, Lexeme.made_name isName]
        rfl
      · rfl
  | @string value pos noQuote =>
      refine ⟨.string (.placeless .string value), ?_, ?_, rfl⟩
      · rw [spelling, Lexeme.made_quoted]
        rfl
      · rfl

private theorem IsJoin.exists_join {tree : Node} (isJoin : IsJoin tree) :
    ∃ join : Join,
      join.tokens = made tree.spelling ∧ join.node.erase = tree.erase ∧
      join.first.isName = tree.startsWithName := by
  induction isJoin with
  | operand isOperand =>
      obtain ⟨operand, sameToken, sameNode, sameStart⟩ := isOperand.exists_operand
      exact ⟨⟨operand, []⟩, sameToken, sameNode, sameStart⟩
  | @join left right pos _ isOperand inductionHypothesis =>
      obtain ⟨chain, sameTokens, sameLeft, sameStart⟩ := inductionHypothesis
      obtain ⟨operand, sameToken, sameRight, -⟩ := isOperand.exists_operand
      refine ⟨chain.snoc (.placeless .arrow (utf8 "->")) operand, ?_, ?_, sameStart⟩
      · rw [spelling, if_pos rfl, Lexeme.made_append, Lexeme.made_mark, ← sameTokens, ← sameToken]
        exact Grammar.Chain.tokens_snoc _ chain _ operand
      · have snoc := Grammar.Chain.node_snoc (utf8 "->") Operand.node chain
          (.placeless .arrow (utf8 "->")) operand
        rw [Join.node, snoc, erase, sameRight, ← Join.node, sameLeft, erase]

private theorem IsExpression.exists_expression {tree : Node} (isExpression : IsExpression tree) :
    ∃ expression : Expression,
      expression.tokens = made tree.spelling ∧ expression.node.erase = tree.erase ∧
      expression.leading.isName = tree.startsWithName := by
  induction isExpression with
  | join isJoin =>
      obtain ⟨join, sameTokens, sameNode, sameStart⟩ := isJoin.exists_join
      refine ⟨⟨join, []⟩, ?_, sameNode, sameStart⟩
      rw [← sameTokens]
      exact List.append_nil _
  | @compare left right pos _ isJoin inductionHypothesis =>
      obtain ⟨chain, sameTokens, sameLeft, sameStart⟩ := inductionHypothesis
      obtain ⟨join, sameToken, sameRight, -⟩ := isJoin.exists_join
      refine ⟨chain.snoc (.placeless .equalsEquals (utf8 "==")) join, ?_, ?_, sameStart⟩
      · rw [spelling, if_neg (by decide), Lexeme.made_append, Lexeme.made_mark, ← sameTokens,
          ← sameToken]
        exact Grammar.Chain.tokens_snoc _ chain _ join
      · have snoc := Grammar.Chain.node_snoc (utf8 "==") Join.node chain
          (.placeless .equalsEquals (utf8 "==")) join
        rw [Expression.node, snoc, erase, sameRight, ← Expression.node, sameLeft, erase]

private theorem exists_links {arguments : List Node}
    (areExpressions : ∀ argument ∈ arguments, IsExpression argument) :
    ∃ links : List (Terminal .comma × Expression),
      Grammar.Chain.linkTokens Expression.tokens links =
        made (arguments.flatMap fun argument => mark .comma "," :: argument.spelling) ∧
      (links.map fun link => link.2.node.erase) = arguments.map erase := by
  induction arguments with
  | nil => exact ⟨[], rfl, rfl⟩
  | cons argument rest inductionHypothesis =>
      rw [List.forall_mem_cons] at areExpressions
      obtain ⟨expression, sameTokens, sameNode, -⟩ := areExpressions.1.exists_expression
      obtain ⟨links, sameLinks, sameNodes⟩ := inductionHypothesis areExpressions.2
      refine ⟨(.placeless .comma (utf8 ","), expression) :: links, ?_, ?_⟩
      · rw [List.flatMap_cons, Lexeme.made_append, Lexeme.made_mark, ← sameTokens, ← sameLinks]
        rfl
      · rw [List.map_cons, List.map_cons, sameNodes, sameNode]

private theorem exists_arguments {arguments : List Node}
    (areExpressions : ∀ argument ∈ arguments, IsExpression argument) :
    ∃ derived : Arguments,
      derived.tokens = made (spellingAll arguments) ∧
      derived.nodes.map erase = arguments.map erase := by
  cases arguments with
  | nil => exact ⟨none, rfl, rfl⟩
  | cons argument rest =>
      rw [List.forall_mem_cons] at areExpressions
      obtain ⟨expression, sameTokens, sameNode, -⟩ := areExpressions.1.exists_expression
      obtain ⟨links, sameLinks, sameNodes⟩ := exists_links areExpressions.2
      refine ⟨some ⟨expression, links⟩, ?_, ?_⟩
      · rw [spellingAll, Lexeme.made_append, ← sameTokens, ← sameLinks]
        rfl
      · rw [Arguments.nodes, List.map_cons, List.map_map, List.map_cons, sameNode, ← sameNodes]
        rfl

end Node

/-! ## Every printed program has a derivation -/

/-- `Derived program lexemes` means that all of `lexemes` can be cut off, and their tokens have a
derivation of `program`, up to places. -/
structure Derived (program : Program) (lexemes : List Lexeme) : Prop where
  whole : ∀ lexeme ∈ lexemes, lexeme.Whole
  exists_derivation :
    ∃ derivation : Grammar.Derivation,
      derivation.tokens = made lexemes ∧ derivation.program.map Node.erase = program.map Node.erase

namespace Derived

private theorem append {first second : Program} {firstLexemes secondLexemes : List Lexeme}
    (derivedFirst : Derived first firstLexemes) (derivedSecond : Derived second secondLexemes) :
    Derived (first ++ second) (firstLexemes ++ secondLexemes) := by
  obtain ⟨wholeFirst, derivation, sameTokens, sameProgram⟩ := derivedFirst
  obtain ⟨wholeSecond, derivation', sameTokens', sameProgram'⟩ := derivedSecond
  refine ⟨List.forall_mem_append.mpr ⟨wholeFirst, wholeSecond⟩, derivation ++ derivation', ?_, ?_⟩
  · rw [Lexeme.made_append, ← sameTokens, ← sameTokens']
    exact Grammar.Statement.allTokens_append derivation derivation'
  · rw [List.map_append, ← sameProgram, ← sameProgram', ← List.map_append]
    exact congrArg _ (Grammar.Statement.allNodes_append derivation derivation')

/-- A single statement with a derivation. -/
private theorem of_statement {tree : Node} {lexemes : List Lexeme}
    (whole : ∀ lexeme ∈ lexemes, lexeme.Whole) (statement : Grammar.Statement)
    (sameTokens : statement.tokens = made lexemes) (sameNode : statement.node.erase = tree.erase) :
    Derived [tree] lexemes := by
  refine ⟨whole, [statement], ?_, ?_⟩
  · rw [← sameTokens]
    exact List.append_nil _
  · exact congrArg (fun erased => [erased]) sameNode

private theorem comment {text : Bytes} (noLineFeed : Bytes.lineFeed ∉ text)
    (trimmed : text.trim = text) (pos : Position) : Derived [.comment text pos] [remark text] := by
  have noLineFeed' : Bytes.lineFeed ∉ Bytes.space :: text :=
    List.not_mem_cons_of_ne_of_not_mem (by decide) noLineFeed
  apply of_statement _ (.comment (.placeless .comment text))
  · rw [Lexeme.made_remark trimmed]
    rfl
  · rfl
  · rw [List.forall_mem_singleton]
    exact Lexeme.whole_comment noLineFeed'

private theorem declaration {name type : Bytes} {value : Node} (isName : IsName name)
    (isType : IsName type) (isValue : IsExpression value) (pos : Position) :
    Derived [.declaration name type value pos]
      ([word name, mark .typeMark "::", mark .typeOpen "[", word type, mark .typeClose "]",
        mark .arrow "->"] ++ value.spelling) := by
  obtain ⟨expression, sameTokens, sameNode, -⟩ := isValue.exists_expression
  apply of_statement _
    (.declaration (.placeless .identifier name) (.placeless .typeMark (utf8 "::"))
      (.placeless .typeOpen (utf8 "[")) (.placeless .identifier type)
      (.placeless .typeClose (utf8 "]")) (.placeless .arrow (utf8 "->")) expression)
  · rw [Lexeme.made_append, Lexeme.made_name isName, Lexeme.made_mark, Lexeme.made_mark,
      Lexeme.made_name isType, ← sameTokens]
    rfl
  · rw [Grammar.Statement.node, Node.erase, Node.erase, sameNode]
    rfl
  · simp only [List.forall_mem_append, List.forall_mem_cons]
    exact ⟨⟨Lexeme.whole_word isName.1, Lexeme.whole_mark (by decide),
      Lexeme.whole_mark (by decide), Lexeme.whole_word isType.1, Lexeme.whole_mark (by decide),
      Lexeme.whole_mark (by decide), List.forall_mem_nil _⟩, isValue.whole⟩

private theorem assignment {name : Bytes} {value : Node} (isName : IsName name)
    (isValue : IsExpression value) (pos : Position) :
    Derived [.assignment name value pos] ([word name, mark .arrow "->"] ++ value.spelling) := by
  obtain ⟨expression, sameTokens, sameNode, -⟩ := isValue.exists_expression
  apply of_statement _
    (.assignment (.placeless .identifier name) (.placeless .arrow (utf8 "->")) expression)
  · rw [Lexeme.made_append, Lexeme.made_name isName, Lexeme.made_mark, ← sameTokens]
    rfl
  · rw [Grammar.Statement.node, Node.erase, Node.erase, sameNode]
    rfl
  · simp only [List.forall_mem_append, List.forall_mem_cons]
    exact ⟨⟨Lexeme.whole_word isName.1, Lexeme.whole_mark (by decide), List.forall_mem_nil _⟩,
      isValue.whole⟩

private theorem branch {condition : Node} {body : List Node} {inner : List Lexeme}
    (isCondition : IsExpression condition) (derivedBody : Derived body inner)
    (brace pos : Position) :
    Derived [.branch condition (.braced body brace) .missing pos]
      ([word (utf8 "if"), mark .arrow "->"] ++ condition.spelling ++
        [mark .doubleArrow "=>", mark .leftBrace "\x7b"] ++ inner ++
        [mark .rightBrace "\x7d"]) := by
  obtain ⟨expression, sameTokens, sameNode, -⟩ := isCondition.exists_expression
  obtain ⟨wholeBody, derivation, sameBodyTokens, sameBody⟩ := derivedBody
  have isWord : IsWord (utf8 "if") :=
    ⟨_, _, rfl, by decide, by decide +kernel⟩
  apply of_statement _
    (.branch none (.placeless .ifWord (utf8 "if")) (.placeless .arrow (utf8 "->")) expression
      (.placeless .doubleArrow (utf8 "=>")) (.placeless .leftBrace (utf8 "\x7b")) derivation
      (.placeless .rightBrace (utf8 "\x7d")))
  · have opened :
        made [mark .doubleArrow "=>", mark .leftBrace "\x7b"] =
          [⟨.doubleArrow, utf8 "=>", .origin⟩, ⟨.leftBrace, utf8 "\x7b", .origin⟩] :=
      rfl
    rw [Lexeme.made_append, Lexeme.made_append, Lexeme.made_append, Lexeme.made_append, opened,
      ← sameTokens, ← sameBodyTokens, List.append_assoc _ _ (Grammar.Derivation.tokens derivation)]
    rfl
  · rw [Grammar.Statement.node, Node.erase, Node.erase, Block.erase, Block.erase,
      Node.eraseAll_eq_map, Node.eraseAll_eq_map, sameNode, ← sameBody]
    rfl
  · simp only [List.forall_mem_append, List.forall_mem_cons]
    exact ⟨⟨⟨⟨⟨Lexeme.whole_word isWord, Lexeme.whole_mark (by decide), List.forall_mem_nil _⟩,
      isCondition.whole⟩, Lexeme.whole_mark (by decide), Lexeme.whole_mark (by decide),
      List.forall_mem_nil _⟩, wholeBody⟩, Lexeme.whole_mark (by decide), List.forall_mem_nil _⟩

private theorem write {arguments : List Node}
    (areExpressions : ∀ argument ∈ arguments, IsExpression argument) (pos : Position) :
    Derived [.write arguments pos]
      ([word (utf8 "write"), mark .leftParen "("] ++ Node.spellingAll arguments ++
        [mark .rightParen ")"]) := by
  obtain ⟨derived, sameTokens, sameNodes⟩ := Node.exists_arguments areExpressions
  have isWord : IsWord (utf8 "write") :=
    ⟨_, _, rfl, by decide, by decide +kernel⟩
  apply of_statement _
    (.write none (.placeless .writeWord (utf8 "write")) (.placeless .leftParen (utf8 "(")) derived
      (.placeless .rightParen (utf8 ")")))
  · rw [Lexeme.made_append, Lexeme.made_append, ← sameTokens]
    rfl
  · rw [Grammar.Statement.node, Node.erase, Node.erase, Node.eraseAll_eq_map,
      Node.eraseAll_eq_map, sameNodes]
  · simp only [List.forall_mem_append, List.forall_mem_cons]
    exact ⟨⟨⟨Lexeme.whole_word isWord, Lexeme.whole_mark (by decide), List.forall_mem_nil _⟩,
      Node.whole_spellingAll areExpressions⟩, Lexeme.whole_mark (by decide), List.forall_mem_nil _⟩

private theorem expression {value : Node} (isValue : IsExpression value)
    (unnamed : value.startsWithName = false) (pos : Position) :
    Derived [.expression value pos] value.spelling := by
  obtain ⟨expression, sameTokens, sameNode, sameStart⟩ := isValue.exists_expression
  apply of_statement isValue.whole (.expression none expression fun _ => sameStart.trans unnamed)
  · exact sameTokens
  · rw [Grammar.Statement.node, Node.erase, Node.erase, sameNode]

private theorem named {value : Node} {name : Bytes} (isValue : IsExpression value)
    (isName : IsName name)
    (pos : Position) : Derived [.expression value pos] ([word name] ++ value.spelling) := by
  obtain ⟨expression, sameTokens, sameNode, -⟩ := isValue.exists_expression
  apply of_statement _ (.expression (some (.placeless .identifier name)) expression nofun)
  · rw [Lexeme.made_append, Lexeme.made_name isName, ← sameTokens]
    rfl
  · rw [Grammar.Statement.node, Node.erase, Node.erase, sameNode]
  · rw [List.forall_mem_append, List.forall_mem_singleton]
    exact ⟨Lexeme.whole_word isName.1, isValue.whole⟩

end Derived

/-- Every printed program has a derivation. -/
theorem Prints.derived {program : Program} {lexemes : List Lexeme} (prints : Prints program lexemes)
    (wellFormed : program.WellFormed) : Derived program lexemes := by
  induction prints with
  | nil =>
      exact ⟨List.forall_mem_nil _, [], rfl, rfl⟩
  | comment _ inductionHypothesis =>
      obtain ⟨isStatement, areStatements⟩ := List.forall_mem_cons.mp wellFormed
      cases isStatement with
      | comment noLineFeed trimmed =>
          exact (Derived.comment noLineFeed trimmed _).append (inductionHypothesis areStatements)
  | declaration _ inductionHypothesis =>
      obtain ⟨isStatement, areStatements⟩ := List.forall_mem_cons.mp wellFormed
      cases isStatement with
      | declaration isName isType isValue =>
          exact (Derived.declaration isName isType isValue _).append
            (inductionHypothesis areStatements)
  | assignment _ inductionHypothesis =>
      obtain ⟨isStatement, areStatements⟩ := List.forall_mem_cons.mp wellFormed
      cases isStatement with
      | assignment isName isValue =>
          exact (Derived.assignment isName isValue _).append (inductionHypothesis areStatements)
  | branch _ _ bodyHypothesis inductionHypothesis =>
      obtain ⟨isStatement, areStatements⟩ := List.forall_mem_cons.mp wellFormed
      cases isStatement with
      | branch isCondition isBody =>
          exact (Derived.branch isCondition (bodyHypothesis isBody) _ _).append
            (inductionHypothesis areStatements)
  | write _ inductionHypothesis =>
      obtain ⟨isStatement, areStatements⟩ := List.forall_mem_cons.mp wellFormed
      cases isStatement with
      | write areExpressions =>
          exact (Derived.write areExpressions _).append (inductionHypothesis areStatements)
  | expression unnamed _ inductionHypothesis =>
      obtain ⟨isStatement, areStatements⟩ := List.forall_mem_cons.mp wellFormed
      cases isStatement with
      | expression isValue =>
          exact (Derived.expression isValue unnamed _).append (inductionHypothesis areStatements)
  | named _ isName _ inductionHypothesis =>
      obtain ⟨isStatement, areStatements⟩ := List.forall_mem_cons.mp wellFormed
      cases isStatement with
      | expression isValue =>
          exact (Derived.named isValue isName _).append (inductionHypothesis areStatements)

/-! ## Every program can be printed -/

private theorem exists_prints_of_step {trees : List Node}
    (step : ∀ tree ∈ trees, ∀ rest lexemes,
      Prints rest lexemes → ∃ more, Prints (tree :: rest) more) :
    ∃ lexemes, Prints trees lexemes := by
  induction trees with
  | nil => exact ⟨[], .nil⟩
  | cons tree rest inductionHypothesis =>
      rw [List.forall_mem_cons] at step
      obtain ⟨lexemes, prints⟩ := inductionHypothesis step.2
      exact step.1 rest lexemes prints

private theorem Node.IsStatement.exists_prints {tree : Node} (isStatement : IsStatement tree)
    (rest : Program) (lexemes : List Lexeme) (prints : Prints rest lexemes) :
    ∃ more, Prints (tree :: rest) more := by
  induction isStatement generalizing rest lexemes with
  | comment _ _ => exact ⟨_, .comment prints⟩
  | declaration _ _ _ => exact ⟨_, .declaration prints⟩
  | assignment _ _ => exact ⟨_, .assignment prints⟩
  | branch _ _ inductionHypothesis =>
      obtain ⟨inner, printsBody⟩ := exists_prints_of_step inductionHypothesis
      exact ⟨_, .branch printsBody prints⟩
  | write _ => exact ⟨_, .write prints⟩
  | @expression value pos _ =>
      have isName : IsName (utf8 "x") :=
        ⟨⟨_, _, rfl, by decide, by decide +kernel⟩, by decide, by decide⟩
      cases starts : value.startsWithName with
      | false => exact ⟨_, .expression starts prints⟩
      | true => exact ⟨_, .named starts isName prints⟩

/-! ## Parsing what has been printed -/

/-- Every program of the language can be printed.  Parsing gives it back from any way to print
it and to lay it out, up to places. -/
theorem parse_layout {program : Program} (wellFormed : program.WellFormed) :
    (∃ lexemes, Prints program lexemes) ∧
    ∀ lexemes front text,
      Prints program lexemes → IsRun front → Lays lexemes text →
      ∃ parsed,
        (parse (front ++ text)).result = .ok parsed ∧
        parsed.map Node.erase = program.map Node.erase := by
  constructor
  · apply exists_prints_of_step
    intro tree member
    exact (wellFormed tree member).exists_prints
  · intro lexemes front text prints isRun lays
    obtain ⟨whole, derivation, sameTokens, sameProgram⟩ := prints.derived wellFormed
    obtain ⟨laid, cutsLaid, sameLaid⟩ := lays.exists_cuts whole
    obtain ⟨all, cuts, sameAll⟩ := Lexeme.exists_cuts_run isRun cutsLaid
    have samePlaces :
        derivation.tokens.map Token.erase = (Lexeme.tokens .start all).map Token.erase := by
      rw [sameTokens, Lexeme.map_erase_made, Lexeme.map_erase_tokens, sameAll, sameLaid]
    obtain ⟨parsed, outcome, same⟩ :=
      Reader.State.exists_outcome?_congr samePlaces (Grammar.outcome?_derivation derivation)
    exact ⟨parsed, parse_eq_ok_iff.mpr ⟨all, cuts, outcome⟩, same.trans sameProgram⟩

/-- A comment, and an expression by itself that starts with a name. -/
def remarked : Program :=
  [.comment (utf8 "hi") .origin, .expression (.identifier (utf8 "a") .origin) .origin]

theorem parse_layout_remarked :
    remarked.WellFormed ∧
    ∃ parsed,
      (parse (utf8 " /_\\ hi\n\tb \r a\n")).result = .ok parsed ∧
      parsed.map Node.erase = remarked.map Node.erase := by
  have isName : IsName (utf8 "a") ∧ IsName (utf8 "b") :=
    ⟨⟨⟨_, _, rfl, by decide, by decide +kernel⟩, by decide, by decide⟩,
      ⟨⟨_, _, rfl, by decide, by decide +kernel⟩, by decide, by decide⟩⟩
  have isComment : Bytes.lineFeed ∉ utf8 "hi" ∧ (utf8 "hi").trim = utf8 "hi" := by
    decide
  have wellFormed : remarked.WellFormed := by
    rw [Program.WellFormed, remarked, List.forall_mem_cons, List.forall_mem_singleton]
    exact ⟨.comment isComment.1 isComment.2, .expression (.join (.operand (.identifier isName.1)))⟩
  have prints : Prints remarked [remark (utf8 "hi"), word (utf8 "b"), word (utf8 "a")] :=
    .comment (.named rfl isName.2 .nil)
  have laysLast : Lays [word (utf8 "a")] (utf8 "a" ++ (utf8 "\n" ++ [])) :=
    .cons (by decide) (by decide) nofun .nil
  have laysName :
      Lays [word (utf8 "b"), word (utf8 "a")] (utf8 "b" ++ (utf8 " \r " ++ utf8 "a\n")) :=
    .cons (by decide) (by decide) nofun laysLast
  have lays :
      Lays [remark (utf8 "hi"), word (utf8 "b"), word (utf8 "a")]
        (utf8 "/_\\ hi" ++ (utf8 "\n\t" ++ utf8 "b \r a\n")) := by
    refine .cons (by decide) (by decide) ?_ laysName
    intro _ byte isFirst
    cases isFirst
    rfl
  have isRun : IsRun (utf8 " ") := by
    decide
  exact ⟨wellFormed, (parse_layout wellFormed).2 _ _ _ prints isRun lays⟩

end TriforceScript
