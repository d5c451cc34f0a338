import TriforceScript.Proofs.Grammar.Soundness

/-!
# Unambiguity

Tokens have at most one derivation.  The first three tokens of a statement tell its
form, and every part of a statement ends where the next token cannot belong to it, so
that no two derivations can take different parts off the front of the same tokens.
-/

namespace TriforceScript

namespace Grammar

/-! ## Chains -/

theorem operand_unique {first second : Operand} (same : first.token = second.token) :
    first = second := by
  cases first with
  | string terminal =>
      cases second with
      | string other =>
          exact congrArg Operand.string (Terminal.ext same)
      | name other =>
          have kinds := congrArg Token.kind same
          simp [Operand.token] at kinds
  | name terminal =>
      cases second with
      | string other =>
          have kinds := congrArg Token.kind same
          simp [Operand.token] at kinds
      | name other =>
          exact congrArg Operand.name (Terminal.ext same)

section Chains

variable {operator : Token.Kind} {Item : Type} {itemTokens : Item → List Token}
  {follows : List Token → Prop}

/-- Items that are taken off the front in one way only, wherever the tokens behind
them satisfy `follows`. -/
def Separable (itemTokens : Item → List Token) (follows : List Token → Prop) : Prop :=
  ∀ (first second : Item) (behind behind' : List Token),
    follows behind →
    follows behind' →
    itemTokens first ++ behind = itemTokens second ++ behind' →
    first = second ∧ behind = behind'

/-- Tokens behind a chain: they may follow an item, and are not one more link. -/
def EndsChain (operator : Token.Kind) (follows : List Token → Prop)
    (behind : List Token) : Prop :=
  follows behind ∧ ∀ token ∈ behind.head?, token.kind ≠ operator

private theorem follows_links
    (operatorFollows :
      ∀ (terminal : Terminal operator) (rest : List Token), follows (terminal.token :: rest))
    (links : List (Terminal operator × Item)) {behind : List Token}
    (behindFollows : follows behind) :
    follows (Chain.linkTokens itemTokens links ++ behind) := by
  cases links with
  | nil => exact behindFollows
  | cons link rest => exact operatorFollows link.1 _

theorem links_unique (separable : Separable itemTokens follows)
    (operatorFollows :
      ∀ (terminal : Terminal operator) (rest : List Token), follows (terminal.token :: rest))
    {links links' : List (Terminal operator × Item)} {behind behind' : List Token}
    (ends : EndsChain operator follows behind) (ends' : EndsChain operator follows behind')
    (same :
      Chain.linkTokens itemTokens links ++ behind =
        Chain.linkTokens itemTokens links' ++ behind') :
    links = links' ∧ behind = behind' := by
  induction links generalizing links' with
  | nil =>
      cases links' with
      | nil =>
          exact ⟨rfl, same⟩
      | cons link rest =>
          -- What stands behind a chain is no further link of it.
          have starts : behind = link.1.token ::
              (itemTokens link.2 ++ Chain.linkTokens itemTokens rest ++ behind') := by
            simpa [Chain.linkTokens] using same
          exact absurd link.1.kind_eq (ends.2 link.1.token (by rw [starts]; rfl))
  | cons link rest inductionHypothesis =>
      cases links' with
      | nil =>
          have starts : behind' = link.1.token ::
              (itemTokens link.2 ++ Chain.linkTokens itemTokens rest ++ behind) := by
            simpa [Chain.linkTokens] using same.symm
          exact absurd link.1.kind_eq (ends'.2 link.1.token (by rw [starts]; rfl))
      | cons link' rest' =>
          obtain ⟨mark, item⟩ := link
          obtain ⟨mark', item'⟩ := link'
          have parts :
              mark.token = mark'.token ∧
                itemTokens item ++ (Chain.linkTokens itemTokens rest ++ behind) =
                  itemTokens item' ++ (Chain.linkTokens itemTokens rest' ++ behind') := by
            simpa [Chain.linkTokens] using same
          obtain ⟨sameItem, sameRest⟩ :=
            separable item item' _ _ (follows_links operatorFollows rest ends.1)
              (follows_links operatorFollows rest' ends'.1) parts.2
          obtain ⟨sameLinks, sameBehind⟩ := inductionHypothesis sameRest
          refine ⟨?_, sameBehind⟩
          rw [Terminal.ext parts.1, sameItem, sameLinks]

/-- Chains of separable items are separable where no further link follows. -/
theorem separable_chain (separable : Separable itemTokens follows)
    (operatorFollows :
      ∀ (terminal : Terminal operator) (rest : List Token), follows (terminal.token :: rest)) :
    Separable (fun chain : Chain operator Item => chain.tokens itemTokens)
      (EndsChain operator follows) := by
  intro first second behind behind' ends ends' same
  simp only [Chain.tokens, List.append_assoc] at same
  obtain ⟨sameFirst, sameLinks⟩ :=
    separable first.first second.first _ _ (follows_links operatorFollows _ ends.1)
      (follows_links operatorFollows _ ends'.1) same
  obtain ⟨sameRest, sameBehind⟩ := links_unique separable operatorFollows ends ends' sameLinks
  refine ⟨?_, sameBehind⟩
  cases first
  cases second
  simp_all

end Chains

private theorem separable_operand :
    Separable (fun operand : Operand => [operand.token]) (fun _ => True) := by
  intro first second behind behind' _ _ same
  obtain ⟨sameToken, sameBehind⟩ := List.cons.inj same
  exact ⟨operand_unique sameToken, sameBehind⟩

private theorem separable_join :
    Separable Join.tokens (EndsChain .arrow fun _ => True) :=
  separable_chain separable_operand fun _ _ => trivial

private theorem separable_expression : Separable Expression.tokens Token.Stops := by
  have equalsFollows (terminal : Terminal .equalsEquals) (rest : List Token) :
      EndsChain .arrow (fun _ => True) (terminal.token :: rest) := by
    simp [EndsChain]
  have ends {behind : List Token} (stops : Token.Stops behind) :
      EndsChain .equalsEquals (EndsChain .arrow fun _ => True) behind :=
    ⟨⟨trivial, fun token member => (stops token member).1⟩,
      fun token member => (stops token member).2⟩
  intro first second behind behind' stops stops' same
  exact separable_chain separable_join equalsFollows first second behind behind' (ends stops)
    (ends stops') same

theorem arguments_unique {first second : Arguments} {right right' : Terminal .rightParen}
    {behind behind' : List Token}
    (same :
      first.tokens ++ right.token :: behind = second.tokens ++ right'.token :: behind') :
    first = second ∧ right = right' ∧ behind = behind' := by
  have commaFollows (terminal : Terminal .comma) (rest : List Token) :
      Token.Stops (terminal.token :: rest) := by
    simp [Token.Stops]
  have ends (terminal : Terminal .rightParen) (rest : List Token) :
      EndsChain .comma Token.Stops (terminal.token :: rest) := by
    simp [EndsChain, Token.Stops]
  have noParen (chain : Chain .comma Expression) (terminal : Terminal .rightParen)
      (rest others : List Token) :
      Chain.tokens Expression.tokens chain ++ rest ≠ terminal.token :: others := by
    intro equal
    rw [Chain.tokens, Expression.tokens_eq] at equal
    have kinds := congrArg Token.kind (List.cons.inj equal).1
    cases leading : chain.first.leading <;> simp [leading, Operand.token] at kinds
  cases first with
  | none =>
      cases second with
      | none =>
          obtain ⟨sameRight, sameBehind⟩ := List.cons.inj same
          exact ⟨rfl, Terminal.ext sameRight, sameBehind⟩
      | some chain =>
          exact absurd same.symm (noParen chain right _ _)
  | some chain =>
      cases second with
      | none =>
          exact absurd same (noParen chain right' _ _)
      | some chain' =>
          obtain ⟨sameChain, sameRest⟩ :=
            separable_chain separable_expression commaFollows chain chain' _ _ (ends right behind)
              (ends right' behind') same
          obtain ⟨sameRight, sameBehind⟩ := List.cons.inj sameRest
          exact ⟨congrArg some sameChain, Terminal.ext sameRight, sameBehind⟩

/-! ## Forms of statements -/

/-- The forms of statements.  Tails have two each, with a name in front and without. -/
inductive Form where
  | comment
  | reassignment
  | declaration
  | assignment
  | branch (led : Bool)
  | write (led : Bool)
  | expression (led : Bool)
  deriving DecidableEq

/-- The form of a statement. -/
def Statement.form : Statement → Form
  | .comment _ => .comment
  | .reassignment _ _ _ _ => .reassignment
  | .declaration _ _ _ _ _ _ _ => .declaration
  | .assignment _ _ _ => .assignment
  | .branch lead _ _ _ _ _ _ _ => .branch lead.isSome
  | .write lead _ _ _ _ => .write lead.isSome
  | .expression lead _ _ => .expression lead.isSome

/-- The form that the categories of the first tokens tell. -/
def Form.ofKinds : List Token.Kind → Form
  | .comment :: _ => .comment
  | .identifier :: .typeMark :: .identifier :: _ => .reassignment
  | .identifier :: .typeMark :: _ => .declaration
  | .identifier :: .arrow :: _ => .assignment
  | .identifier :: .ifWord :: _ => .branch true
  | .identifier :: .writeWord :: _ => .write true
  | .identifier :: _ => .expression true
  | .ifWord :: _ => .branch false
  | .writeWord :: _ => .write false
  | _ => .expression false

/-- The first tokens of a statement tell its form, whatever stands behind it. -/
private theorem ofKinds_tokens (statement : Statement) (behind : List Token) :
    Form.ofKinds ((statement.tokens ++ behind).map Token.kind) = statement.form := by
  cases statement with
  | reassignment name mark value named =>
      cases leading : value.leading with
      | string terminal => simp [leading, Operand.isName] at named
      | name terminal =>
          simp [Statement.tokens, Expression.tokens_eq, leading, Operand.token, Form.ofKinds,
            Statement.form]
  | branch lead | write lead =>
      cases lead <;> simp [Statement.tokens, Lead.tokens, Form.ofKinds, Statement.form]
  | expression lead value led =>
      cases lead with
      | none =>
          have noName := led rfl
          cases leading : value.leading with
          | string terminal =>
              simp [Statement.tokens, Lead.tokens, Expression.tokens_eq, leading, Operand.token,
                Form.ofKinds, Statement.form]
          | name terminal => simp [leading, Operand.isName] at noName
      | some name =>
          cases leading : value.leading <;>
            simp [Statement.tokens, Lead.tokens, Expression.tokens_eq, leading, Operand.token,
              Form.ofKinds, Statement.form]
  | _ => simp [Statement.tokens, Form.ofKinds, Statement.form]

theorem lead_unique {lead lead' : Lead} {behind behind' : List Token}
    (sameForm : lead.isSome = lead'.isSome)
    (same : lead.tokens ++ behind = lead'.tokens ++ behind') :
    lead = lead' ∧ behind = behind' := by
  cases lead with
  | none =>
      cases lead' with
      | none => exact ⟨rfl, same⟩
      | some name => simp at sameForm
  | some name =>
      cases lead' with
      | none => simp at sameForm
      | some name' =>
          obtain ⟨sameName, sameBehind⟩ := List.cons.inj same
          exact ⟨congrArg some (Terminal.ext sameName), sameBehind⟩

/-! ## Statements -/

/-- Tokens behind a list of statements: they are none, or a block is closed. -/
def ClosesBlock (behind : List Token) : Prop :=
  ∀ token ∈ behind.head?, token.kind = .rightBrace

private theorem stops_allTokens (statements : List Statement) {behind : List Token}
    (closes : ClosesBlock behind) : Token.Stops (Statement.allTokens statements ++ behind) := by
  intro token member
  cases statements with
  | nil =>
      simp [closes token member]
  | cons statement rest =>
      obtain ⟨first, others, shape, starts⟩ := exists_first statement
      simp only [List.mem_cons, List.not_mem_nil, or_false, not_or] at starts
      rw [Statement.allTokens, shape] at member
      cases member
      exact ⟨starts.1, starts.2.1⟩

private theorem not_closesBlock_tokens (statement : Statement) (behind : List Token) :
    ¬ ClosesBlock (statement.tokens ++ behind) := by
  intro closes
  obtain ⟨first, others, shape, starts⟩ := exists_first statement
  simp only [List.mem_cons, List.not_mem_nil, or_false, not_or] at starts
  exact starts.2.2 (closes first (by rw [shape]; rfl))

mutual

theorem statement_unique (first second : Statement) {behind behind' : List Token}
    (stops : Token.Stops behind) (stops' : Token.Stops behind')
    (same : first.tokens ++ behind = second.tokens ++ behind') :
    first = second ∧ behind = behind' := by
  have sameForm : first.form = second.form := by
    rw [← ofKinds_tokens first behind, ← ofKinds_tokens second behind', same]
  match first with
  | .comment text =>
      cases second with
      | comment text' =>
          obtain ⟨sameText, sameBehind⟩ := List.cons.inj same
          exact ⟨congrArg Statement.comment (Terminal.ext sameText), sameBehind⟩
      | _ => simp [Statement.form] at sameForm
  | .reassignment name mark value named =>
      cases second with
      | reassignment name' mark' value' named' =>
          simp only [Statement.tokens, List.cons_append, List.cons.injEq] at same
          obtain ⟨sameName, sameMark, sameValue⟩ := same
          obtain ⟨rfl, sameBehind⟩ := separable_expression _ _ _ _ stops stops' sameValue
          obtain rfl := Terminal.ext sameName
          obtain rfl := Terminal.ext sameMark
          exact ⟨rfl, sameBehind⟩
      | _ => simp [Statement.form] at sameForm
  | .declaration name mark left type right arrow value =>
      cases second with
      | declaration name' mark' left' type' right' arrow' value' =>
          simp only [Statement.tokens, List.cons_append, List.cons.injEq] at same
          obtain ⟨sameName, sameMark, sameLeft, sameType, sameRight, sameArrow, sameValue⟩ := same
          obtain ⟨rfl, sameBehind⟩ := separable_expression _ _ _ _ stops stops' sameValue
          obtain rfl := Terminal.ext sameName
          obtain rfl := Terminal.ext sameMark
          obtain rfl := Terminal.ext sameLeft
          obtain rfl := Terminal.ext sameType
          obtain rfl := Terminal.ext sameRight
          obtain rfl := Terminal.ext sameArrow
          exact ⟨rfl, sameBehind⟩
      | _ => simp [Statement.form] at sameForm
  | .assignment name arrow value =>
      cases second with
      | assignment name' arrow' value' =>
          simp only [Statement.tokens, List.cons_append, List.cons.injEq] at same
          obtain ⟨sameName, sameArrow, sameValue⟩ := same
          obtain ⟨rfl, sameBehind⟩ := separable_expression _ _ _ _ stops stops' sameValue
          obtain rfl := Terminal.ext sameName
          obtain rfl := Terminal.ext sameArrow
          exact ⟨rfl, sameBehind⟩
      | _ => simp [Statement.form] at sameForm
  | .branch lead word arrow condition doubleArrow left body right =>
      cases second with
      | branch lead' word' arrow' condition' doubleArrow' left' body' right' =>
          simp only [Statement.form, Form.branch.injEq] at sameForm
          simp only [Statement.tokens, List.append_assoc, List.cons_append, List.nil_append]
            at same
          obtain ⟨rfl, sameTail⟩ := lead_unique sameForm same
          simp only [List.cons.injEq] at sameTail
          obtain ⟨sameWord, sameArrow, sameCondition⟩ := sameTail
          obtain ⟨rfl, sameBlock⟩ :=
            separable_expression _ _ _ _ (by simp [Token.Stops]) (by simp [Token.Stops])
              sameCondition
          simp only [List.cons.injEq] at sameBlock
          obtain ⟨sameDouble, sameLeft, sameBody⟩ := sameBlock
          obtain ⟨rfl, sameEnd⟩ :=
            statements_unique body body' (by simp [ClosesBlock]) (by simp [ClosesBlock]) sameBody
          obtain ⟨sameRight, sameBehind⟩ := List.cons.inj sameEnd
          obtain rfl := Terminal.ext sameWord
          obtain rfl := Terminal.ext sameArrow
          obtain rfl := Terminal.ext sameDouble
          obtain rfl := Terminal.ext sameLeft
          obtain rfl := Terminal.ext sameRight
          exact ⟨rfl, sameBehind⟩
      | _ => simp [Statement.form] at sameForm
  | .write lead word left arguments right =>
      cases second with
      | write lead' word' left' arguments' right' =>
          simp only [Statement.form, Form.write.injEq] at sameForm
          simp only [Statement.tokens, List.append_assoc, List.cons_append, List.nil_append]
            at same
          obtain ⟨rfl, sameTail⟩ := lead_unique sameForm same
          simp only [List.cons.injEq] at sameTail
          obtain ⟨sameWord, sameLeft, sameArguments⟩ := sameTail
          obtain ⟨rfl, rfl, sameBehind⟩ := arguments_unique sameArguments
          obtain rfl := Terminal.ext sameWord
          obtain rfl := Terminal.ext sameLeft
          exact ⟨rfl, sameBehind⟩
      | _ => simp [Statement.form] at sameForm
  | .expression lead value led =>
      cases second with
      | expression lead' value' led' =>
          simp only [Statement.form, Form.expression.injEq] at sameForm
          simp only [Statement.tokens, List.append_assoc] at same
          obtain ⟨rfl, sameValue⟩ := lead_unique sameForm same
          obtain ⟨rfl, sameBehind⟩ := separable_expression _ _ _ _ stops stops' sameValue
          exact ⟨rfl, sameBehind⟩
      | _ => simp [Statement.form] at sameForm

theorem statements_unique (first second : List Statement) {behind behind' : List Token}
    (closes : ClosesBlock behind) (closes' : ClosesBlock behind')
    (same : Statement.allTokens first ++ behind = Statement.allTokens second ++ behind') :
    first = second ∧ behind = behind' := by
  match first with
  | [] =>
      cases second with
      | nil =>
          exact ⟨rfl, same⟩
      | cons statement rest =>
          rw [Statement.allTokens, List.nil_append, Statement.allTokens, List.append_assoc]
            at same
          rw [same] at closes
          exact absurd closes (not_closesBlock_tokens _ _)
  | statement :: rest =>
      cases second with
      | nil =>
          rw [Statement.allTokens, Statement.allTokens, List.append_assoc, List.nil_append]
            at same
          rw [← same] at closes'
          exact absurd closes' (not_closesBlock_tokens _ _)
      | cons statement' rest' =>
          rw [Statement.allTokens, Statement.allTokens, List.append_assoc, List.append_assoc]
            at same
          obtain ⟨rfl, sameRest⟩ :=
            statement_unique statement statement' (stops_allTokens rest closes)
              (stops_allTokens rest' closes') same
          obtain ⟨rfl, sameBehind⟩ := statements_unique rest rest' closes closes' sameRest
          exact ⟨rfl, sameBehind⟩

end

/-- Tokens have at most one derivation. -/
theorem derivation_unique {first second : Derivation} (same : first.tokens = second.tokens) :
    first = second := by
  have none : ClosesBlock [] := by
    simp [ClosesBlock]
  exact (statements_unique first second none none (congrArg (· ++ []) same)).1

end Grammar

end TriforceScript
