import TriforceScript.Proofs.Grammar.Derivation
import TriforceScript.Proofs.Scan.Forms

/-!
# The shape of programs

The trees that the language has, whatever their places: names are words, strings hold no
quote, comments are trimmed and stay on their line, operators group to the left with `->`
before `==`, every branch has a block and nothing else.  The trees of derivations have this
shape as soon as their tokens have the texts that lexemes make.
-/

namespace TriforceScript

open Lexical (IsName)

namespace Node

inductive IsOperand : Node → Prop
  | identifier {name : Bytes} {pos : Position} : IsName name → IsOperand (.identifier name pos)
  | string {value : Bytes} {pos : Position} :
      Bytes.quote ∉ value → IsOperand (.string value pos)

inductive IsJoin : Node → Prop
  | operand {tree : Node} : IsOperand tree → IsJoin tree
  | join {left right : Node} {pos : Position} :
      IsJoin left → IsOperand right → IsJoin (.binary (utf8 "->") left right pos)

inductive IsExpression : Node → Prop
  | join {tree : Node} : IsJoin tree → IsExpression tree
  | compare {left right : Node} {pos : Position} :
      IsExpression left → IsJoin right → IsExpression (.binary (utf8 "==") left right pos)

/-- A statement of the language. -/
inductive IsStatement : Node → Prop
  | comment {text : Bytes} {pos : Position} :
      Bytes.lineFeed ∉ text → text.trim = text → IsStatement (.comment text pos)
  | declaration {name type : Bytes} {value : Node} {pos : Position} :
      IsName name → IsName type → IsExpression value →
      IsStatement (.declaration name type value pos)
  | assignment {name : Bytes} {value : Node} {pos : Position} :
      IsName name → IsExpression value → IsStatement (.assignment name value pos)
  | branch {condition : Node} {body : List Node} {brace pos : Position} :
      IsExpression condition →
      (∀ statement ∈ body, IsStatement statement) →
      IsStatement (.branch condition (.braced body brace) .missing pos)
  | write {arguments : List Node} {pos : Position} :
      (∀ argument ∈ arguments, IsExpression argument) → IsStatement (.write arguments pos)
  | expression {value : Node} {pos : Position} :
      IsExpression value → IsStatement (.expression value pos)

end Node

/-- A program of the language. -/
def Program.WellFormed (program : Program) : Prop :=
  ∀ statement ∈ program, statement.IsStatement

/-- The texts that a token of each category may have in a source text. -/
def Token.Lexical (token : Token) : Prop :=
  match token.kind with
  | .identifier => IsName token.text
  | .string => Bytes.quote ∉ token.text
  | .comment => Bytes.lineFeed ∉ token.text ∧ token.text.trim = token.text
  | _ => True

/-! ## Parts of trees -/

def Block.statements : Block → List Node
  | .braced statements _ => statements
  | .missing => []

namespace Node

def children : Node → List Node
  | .declaration _ _ value _ => [value]
  | .assignment _ value _ => [value]
  | .branch condition body otherwise _ => condition :: (body.statements ++ otherwise.statements)
  | .block content => content.statements
  | .write arguments _ => arguments
  | .expression value _ => [value]
  | .binary _ left right _ => [left, right]
  | .comment _ _ | .identifier _ _ | .string _ _ | .missing => []

/-- A tree stands in another one, at any depth. -/
inductive Within : Node → Node → Prop
  | self (tree : Node) : Within tree tree
  | child {part child tree : Node} : child ∈ tree.children → Within part child → Within part tree

theorem IsJoin.isJoin_of_mem {tree child : Node} (isJoin : IsJoin tree)
    (member : child ∈ tree.children) : IsJoin child := by
  cases isJoin with
  | operand isOperand =>
      cases isOperand <;> cases member
  | join isLeft isRight =>
      simp only [children, List.mem_cons, List.not_mem_nil, or_false] at member
      rcases member with rfl | rfl
      · exact isLeft
      · exact .operand isRight

private theorem IsExpression.isExpression_of_mem {tree child : Node}
    (isExpression : IsExpression tree) (member : child ∈ tree.children) : IsExpression child := by
  cases isExpression with
  | join isJoin =>
      exact .join (isJoin.isJoin_of_mem member)
  | compare isLeft isRight =>
      simp only [children, List.mem_cons, List.not_mem_nil, or_false] at member
      rcases member with rfl | rfl
      · exact isLeft
      · exact .join isRight

private theorem IsStatement.of_mem {tree child : Node} (isStatement : IsStatement tree)
    (member : child ∈ tree.children) : IsStatement child ∨ IsExpression child := by
  cases isStatement with
  | comment _ _ =>
      cases member
  | declaration _ _ isValue | assignment _ isValue | expression isValue =>
      rw [children, List.mem_singleton] at member
      exact .inr (member ▸ isValue)
  | branch isCondition body =>
      simp only [children, Block.statements, List.append_nil, List.mem_cons] at member
      rcases member with rfl | inBody
      · exact .inr isCondition
      · exact .inl (body child inBody)
  | write isArgument =>
      exact .inr (isArgument child member)

/-- Everything in a statement is a statement or an expression. -/
theorem Within.isStatement_or_isExpression {part tree : Node} (within : part.Within tree)
    (shape : IsStatement tree ∨ IsExpression tree) : IsStatement part ∨ IsExpression part := by
  induction within with
  | self => exact shape
  | child member _ inductionHypothesis =>
      rcases shape with isStatement | isExpression
      · exact inductionHypothesis (isStatement.of_mem member)
      · exact inductionHypothesis (.inr (isExpression.isExpression_of_mem member))

theorem IsStatement.kind?_notMem {tree : Node} (isStatement : IsStatement tree) :
    tree.kind? ∉ [some .identifier, some .string, some .binary] := by
  cases isStatement <;> simp [kind?]

end Node

/-! ## Tokens of source texts -/

private theorem Lexical.lexical_of_form {behind : Bytes} {piece : Piece} (form : Form behind piece)
    {token : Token} (made : piece.content = some token.content) : token.Lexical := by
  obtain ⟨kind, text, pos⟩ := token
  cases form with
  | @mark spelling other member =>
      cases made
      have noText : ∀ mark ∈ marks, mark.2 ∉ [Token.Kind.identifier, .string, .comment] := by
        decide
      have other := noText _ member
      simp only [List.mem_cons, List.not_mem_nil, or_false, not_or] at other
      unfold Token.Lexical
      split
      · exact (other.1 ‹_›).elim
      · exact (other.2.1 ‹_›).elim
      · exact (other.2.2 ‹_›).elim
      · trivial
  | string noQuote =>
      cases made
      exact noQuote
  | comment noLineFeed _ =>
      cases made
      refine ⟨?_, Bytes.trim_trim _⟩
      intro member
      exact noLineFeed (Bytes.mem_of_mem_trim member)
  | name isName =>
      cases made
      exact isName
  | whole _ | fraction _ _ | ifWord | writeWord =>
      cases made
      trivial
  | blank _ | colon _ | minus _ | slash _ | slashUnderscore _ =>
      cases made

theorem Lexeme.Cuts.lexical {text : Bytes} {lexemes : List Lexeme} {obstacle : Option Obstacle}
    (cuts : Cuts text lexemes obstacle) (position : Position) :
    ∀ token ∈ tokens position lexemes, token.Lexical := by
  induction cuts generalizing position with
  | done =>
      intro token member
      cases member
  | stuck _ =>
      intro token member
      cases member
  | @lexeme first tail behind lexeme lexemes obstacle cutOff bytes _ inductionHypothesis =>
      intro token member
      rw [tokens, List.mem_append] at member
      rcases member with isFirst | inRest
      · rw [Option.mem_toList] at isFirst
        obtain ⟨kind, isKind, rfl⟩ := Option.map_eq_some_iff.mp isFirst
        apply Lexical.lexical_of_form (form_of_cut cutOff bytes)
        rw [piece, isKind]
        rfl
      · exact inductionHypothesis _ token inRest

/-! ## Trees of derivations -/

namespace Grammar

open Node

/-- What holds of the left operand and passes on to every tree built on it holds of a chain. -/
theorem Chain.linkNode_induction {operator : Token.Kind} {Item : Type} {name : Bytes}
    {itemNode : Item → Node} {Left Right : Node → Prop}
    (step : ∀ left right pos, Left left → Right right → Left (.binary name left right pos))
    {left : Node} (base : Left left) {links : List (Terminal operator × Item)}
    (items : ∀ link ∈ links, Right (itemNode link.2)) :
    Left (linkNode name itemNode left links) := by
  induction links generalizing left with
  | nil =>
      exact base
  | cons link rest inductionHypothesis =>
      have first : Right (itemNode link.2) := items link (List.mem_cons_self)
      apply inductionHypothesis (step left _ link.1.token.pos base first)
      intro other member
      exact items other (List.mem_cons_of_mem link member)

private theorem Chain.mem_linkTokens {operator : Token.Kind} {Item : Type}
    {itemTokens : Item → List Token}
    {links : List (Terminal operator × Item)} {link : Terminal operator × Item}
    (member : link ∈ links) {token : Token} (inItem : token ∈ itemTokens link.2) :
    token ∈ linkTokens itemTokens links := by
  rw [linkTokens, List.mem_flatMap]
  exact ⟨link, member, List.mem_cons_of_mem _ inItem⟩

private theorem Operand.isOperand {operand : Operand} (lexical : operand.token.Lexical) :
    IsOperand operand.node := by
  cases operand with
  | string terminal =>
      rw [Operand.token, Token.Lexical, terminal.kind_eq] at lexical
      exact .string lexical
  | name terminal =>
      rw [Operand.token, Token.Lexical, terminal.kind_eq] at lexical
      exact .identifier lexical

private theorem Join.isJoin {join : Join} (lexical : ∀ token ∈ Join.tokens join, token.Lexical) :
    IsJoin (Join.node join) := by
  have first : IsOperand join.first.node := by
    apply Operand.isOperand
    apply lexical
    simp [Join.tokens, Chain.tokens]
  refine Chain.linkNode_induction (fun _ _ _ => IsJoin.join) (.operand first) ?_
  intro link member
  apply Operand.isOperand
  apply lexical
  exact List.mem_append_right _ (Chain.mem_linkTokens member (List.mem_singleton_self _))

private theorem Expression.isExpression {expression : Expression}
    (lexical : ∀ token ∈ expression.tokens, token.Lexical) : IsExpression expression.node := by
  have first : IsJoin (Join.node expression.first) := by
    apply Join.isJoin
    intro token member
    exact lexical token (List.mem_append_left _ member)
  refine Chain.linkNode_induction (fun _ _ _ => IsExpression.compare) (.join first) ?_
  intro link member
  apply Join.isJoin
  intro token inItem
  exact lexical token (List.mem_append_right _ (Chain.mem_linkTokens member inItem))

private theorem Arguments.isExpression {arguments : Arguments}
    (lexical : ∀ token ∈ arguments.tokens, token.Lexical) :
    ∀ argument ∈ arguments.nodes, IsExpression argument := by
  intro argument member
  cases arguments with
  | none =>
      cases member
  | some chain =>
      rcases List.mem_cons.mp member with rfl | inRest
      · apply Expression.isExpression
        intro token inFirst
        exact lexical token (List.mem_append_left _ inFirst)
      · obtain ⟨link, linked, rfl⟩ := List.mem_map.mp inRest
        apply Expression.isExpression
        intro token inItem
        exact lexical token (List.mem_append_right _ (Chain.mem_linkTokens linked inItem))

private theorem Terminal.isName {terminal : Terminal .identifier} (lexical : terminal.token.Lexical)
    :
    IsName terminal.token.text := by
  rw [Token.Lexical, terminal.kind_eq] at lexical
  exact lexical

mutual

theorem Statement.isStatement_node (statement : Statement)
    (lexical : ∀ token ∈ statement.tokens, token.Lexical) : IsStatement statement.node := by
  match statement with
  | .comment text =>
      have isComment := lexical text.token (by simp [Statement.tokens])
      rw [Token.Lexical, text.kind_eq] at isComment
      rw [Statement.node]
      exact .comment isComment.1 isComment.2
  | .reassignment name mark value _ =>
      simp only [Statement.tokens, List.forall_mem_cons] at lexical
      rw [Statement.node]
      exact .assignment (Terminal.isName lexical.1) (Expression.isExpression lexical.2.2)
  | .declaration name mark left type right arrow value =>
      simp only [Statement.tokens, List.forall_mem_cons] at lexical
      obtain ⟨isName, -, -, isType, -, -, inValue⟩ := lexical
      rw [Statement.node]
      exact .declaration (Terminal.isName isName) (Terminal.isName isType)
        (Expression.isExpression inValue)
  | .assignment name arrow value =>
      simp only [Statement.tokens, List.forall_mem_cons] at lexical
      rw [Statement.node]
      exact .assignment (Terminal.isName lexical.1) (Expression.isExpression lexical.2.2)
  | .branch lead word arrow condition doubleArrow left body right =>
      simp only [Statement.tokens, List.forall_mem_append, List.forall_mem_cons] at lexical
      obtain ⟨⟨⟨-, -, -, inCondition⟩, -, -, inBody⟩, -⟩ := lexical
      rw [Statement.node]
      exact .branch (Expression.isExpression inCondition)
        (Statement.isStatement_allNodes body inBody)
  | .write lead word left arguments right =>
      simp only [Statement.tokens, List.forall_mem_append, List.forall_mem_cons] at lexical
      obtain ⟨⟨-, -, -, inArguments⟩, -⟩ := lexical
      rw [Statement.node]
      exact .write (Arguments.isExpression inArguments)
  | .expression lead value _ =>
      simp only [Statement.tokens, List.forall_mem_append] at lexical
      rw [Statement.node]
      exact .expression (Expression.isExpression lexical.2)

theorem Statement.isStatement_allNodes (statements : List Statement)
    (lexical : ∀ token ∈ allTokens statements, token.Lexical) :
    ∀ tree ∈ allNodes statements, IsStatement tree := by
  match statements with
  | [] =>
      intro tree member
      cases member
  | statement :: rest =>
      simp only [Statement.allTokens, List.forall_mem_append] at lexical
      rw [Statement.allNodes, List.forall_mem_cons]
      exact ⟨Statement.isStatement_node statement lexical.1,
        Statement.isStatement_allNodes rest lexical.2⟩

end

end Grammar

end TriforceScript
