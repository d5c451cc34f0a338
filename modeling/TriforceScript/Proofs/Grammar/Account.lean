import TriforceScript.Proofs.Grammar.Unambiguity
import TriforceScript.Proofs.Reader.Endings

/-!
# Notes as an account of the reading

The notes taken while tokens are read as a program tell its statements one after another, those
of a branch before those of its block, and every name that is left out in front of the statement
behind it.  The names that are left out are exactly the tokens that the tree and its fixed parts
do not account for.
-/

namespace TriforceScript

def Note.isDiscarded : Note → Bool
  | .discarded _ => true
  | _ => false

/-! ## Tokens that a tree accounts for -/

mutual

/-- How many tokens a tree is written with: one for each name, string, comment and operator,
and those that are fixed. -/
def Node.tokenCount : Node → Nat
  | .comment _ _ => 1
  -- `NAME :: [ TYPE ] ->`
  | .declaration _ _ value _ => 6 + value.tokenCount
  -- `NAME ::` or `NAME ->`
  | .assignment _ value _ => 2 + value.tokenCount
  -- `if ->` and `=>`
  | .branch condition body otherwise _ =>
      2 + condition.tokenCount + 1 + body.tokenCount + otherwise.tokenCount
  | .block content => content.tokenCount
  -- `write (` and `)`, with commas between the arguments
  | .write arguments _ => 2 + (Node.tokenCountAll arguments + (arguments.length - 1)) + 1
  | .expression value _ => value.tokenCount
  | .binary _ left right _ => left.tokenCount + 1 + right.tokenCount
  | .identifier _ _ | .string _ _ => 1
  | .missing => 0

def Block.tokenCount : Block → Nat
  | .braced statements _ => 1 + Node.tokenCountAll statements + 1
  | .missing => 0

def Node.tokenCountAll : List Node → Nat
  | [] => 0
  | tree :: rest => tree.tokenCount + Node.tokenCountAll rest

end

namespace Grammar

private theorem Chain.length_linkTokens {operator : Token.Kind} {Item : Type} {name : Bytes}
    {itemTokens : Item → List Token} {itemNode : Item → Node}
    (items : ∀ item, (itemTokens item).length = (itemNode item).tokenCount)
    (left : Node) (links : List (Terminal operator × Item)) :
    left.tokenCount + (linkTokens itemTokens links).length =
      (linkNode name itemNode left links).tokenCount := by
  induction links generalizing left with
  | nil =>
      rfl
  | cons link rest inductionHypothesis =>
      have joined :
          (Node.binary name left (itemNode link.2) link.1.token.pos).tokenCount =
            left.tokenCount + 1 + (itemTokens link.2).length := by
        rw [Node.tokenCount, items]
      have counted := inductionHypothesis
        (.binary name left (itemNode link.2) link.1.token.pos)
      rw [joined] at counted
      rw [linkNode, List.foldl_cons, ← linkNode, ← counted]
      simp only [linkTokens, List.flatMap_cons, List.length_append, List.length_cons]
      omega

private theorem Chain.length_tokens {operator : Token.Kind} {Item : Type} {name : Bytes}
    {itemTokens : Item → List Token} {itemNode : Item → Node}
    (items : ∀ item, (itemTokens item).length = (itemNode item).tokenCount)
    (chain : Chain operator Item) :
    (chain.tokens itemTokens).length = (chain.node name itemNode).tokenCount := by
  rw [tokens, List.length_append, items, node]
  exact length_linkTokens items _ _

private theorem Operand.length_tokens (operand : Operand) :
    [operand.token].length = operand.node.tokenCount := by
  cases operand <;> rfl

private theorem Expression.length_tokens (expression : Expression) :
    expression.tokens.length = expression.node.tokenCount :=
  Chain.length_tokens (fun join => Chain.length_tokens Operand.length_tokens join) expression

private theorem Arguments.length_tokens (arguments : Arguments) :
    arguments.tokens.length =
      Node.tokenCountAll arguments.nodes + (arguments.nodes.length - 1) := by
  have links (others : List (Terminal .comma × Expression)) :
      (Chain.linkTokens Expression.tokens others).length =
        Node.tokenCountAll (others.map fun link => link.2.node) + others.length := by
    induction others with
    | nil =>
        rfl
    | cons link rest inductionHypothesis =>
        simp only [Chain.linkTokens, List.flatMap_cons, List.length_append, List.length_cons,
          List.map_cons, Node.tokenCountAll, Expression.length_tokens] at inductionHypothesis ⊢
        omega
  cases arguments with
  | none =>
      rfl
  | some chain =>
      simp only [tokens, nodes, Chain.tokens, List.length_append, links, Expression.length_tokens,
        Node.tokenCountAll, List.length_cons, List.length_map]
      omega

private theorem Lead.length_tokens (lead : Lead) :
    lead.tokens.length = lead.notes.countP Note.isDiscarded := by
  cases lead <;> rfl

mutual

/-- The tokens of a statement are those that its tree accounts for and the names left out. -/
theorem Statement.length_tokens (statement : Statement) :
    statement.tokens.length =
      statement.node.tokenCount + statement.notes.countP Note.isDiscarded := by
  match statement with
  | .comment _ =>
      rfl
  | .reassignment _ _ value _ | .assignment _ _ value =>
      have counted := value.length_tokens
      simp only [tokens, node, notes, Node.tokenCount, List.length_cons]
      show _ = _ + 0
      omega
  | .declaration _ _ _ _ _ _ value =>
      have counted := value.length_tokens
      simp only [tokens, node, notes, Node.tokenCount, List.length_cons]
      show _ = _ + 0
      omega
  | .branch lead _ _ condition _ _ body _ =>
      have countedLead := lead.length_tokens
      have countedCondition := condition.length_tokens
      have countedBody := Statement.length_allTokens body
      simp only [tokens, node, notes, Node.tokenCount, Block.tokenCount, List.length_append,
        List.length_cons, List.length_nil, List.countP_append, List.countP_cons,
        Note.isDiscarded]
      simp only [Bool.false_eq_true, if_false]
      omega
  | .write lead _ _ arguments _ =>
      have countedLead := lead.length_tokens
      have countedArguments := arguments.length_tokens
      simp only [tokens, node, notes, Node.tokenCount, List.length_append, List.length_cons,
        List.length_nil, List.countP_append, List.countP_cons, List.countP_nil,
        Note.isDiscarded]
      simp only [Bool.false_eq_true, if_false]
      omega
  | .expression lead value _ =>
      have countedLead := lead.length_tokens
      have countedValue := value.length_tokens
      simp only [tokens, node, notes, Node.tokenCount, List.length_append]
      omega

private theorem Statement.length_allTokens (statements : List Statement) :
    (allTokens statements).length =
      Node.tokenCountAll (allNodes statements) +
        (allNotes statements).countP Note.isDiscarded := by
  match statements with
  | [] =>
      rfl
  | statement :: rest =>
      have counted := statement.length_tokens
      have countedRest := Statement.length_allTokens rest
      simp only [allTokens, allNodes, allNotes, Node.tokenCountAll, List.length_append,
        List.countP_append]
      omega

end

/-! ## Messages -/

/-- The message about the name that a statement starts with. -/
def namedMessage (name : Token) : Bytes :=
  utf8 "identifier " ++ name.text ++ utf8 " at line " ++ Bytes.ofInt name.pos.line

/-- The messages about a name that is left out. -/
def Lead.messages : Lead → List Bytes
  | none => []
  | some name =>
      [namedMessage name.token,
        utf8 "identifier " ++ name.token.text ++ utf8 " not followed by :: or ->, discarded"]

mutual

/-- The messages about a statement, and about the name left out in front of it. -/
def Statement.messages : Statement → List Bytes
  | .comment _ => []
  | .reassignment name _ _ _ =>
      [namedMessage name.token,
        utf8 "identifier after ::, " ++ name.token.text ++ utf8 " is reassigned"]
  | .declaration name _ _ _ _ _ _ =>
      [namedMessage name.token, utf8 "type declaration for " ++ name.token.text]
  | .assignment name _ _ =>
      [namedMessage name.token, utf8 "assignment to " ++ name.token.text]
  | .branch lead word _ _ _ _ body _ =>
      lead.messages ++
        (utf8 "if statement at line " ++ Bytes.ofInt word.token.pos.line) ::
          Statement.allMessages body
  | .write lead word _ _ _ =>
      lead.messages ++ [utf8 "write statement at line " ++ Bytes.ofInt word.token.pos.line]
  | .expression lead _ _ => lead.messages

def Statement.allMessages : List Statement → List Bytes
  | [] => []
  | statement :: rest => statement.messages ++ Statement.allMessages rest

end

private theorem Lead.map_message_notes (lead : Lead) :
    lead.notes.map Note.message = lead.messages := by
  cases lead <;> rfl

mutual

theorem Statement.map_message_notes (statement : Statement) :
    statement.notes.map Note.message = statement.messages := by
  match statement with
  | .comment _ | .reassignment _ _ _ _ | .declaration _ _ _ _ _ _ _ | .assignment _ _ _ =>
      rfl
  | .branch lead _ _ _ _ _ body _ =>
      rw [notes, messages, List.map_append, List.map_cons, lead.map_message_notes,
        Statement.map_message_allNotes body]
      rfl
  | .write lead _ _ _ _ =>
      rw [notes, messages, List.map_append, lead.map_message_notes]
      rfl
  | .expression lead _ _ =>
      exact lead.map_message_notes

private theorem Statement.map_message_allNotes (statements : List Statement) :
    (allNotes statements).map Note.message = allMessages statements := by
  match statements with
  | [] =>
      rfl
  | statement :: rest =>
      rw [allNotes, allMessages, List.map_append, statement.map_message_notes,
        Statement.map_message_allNotes rest]

end

/-! ## Whole readings -/

/-- The tokens of a derivation are read as its program, with its notes. -/
theorem read_derivation (endToken : Token) (derivation : Derivation) :
    Reader.State.read endToken {} derivation.tokens =
      ⟨Statement.allNotes derivation, .ok derivation.program⟩ := by
  obtain ⟨reached, run, program, notes⟩ := run_derivation derivation
  rw [Reader.State.read_of_run endToken run, Reader.State.finish, program, notes,
    List.reverse_reverse]

/-- The notes are a faithful account.  Tokens that are read as a program have one derivation,
the messages are those of its statements in their order, and there are as many names left out
as there are tokens that the program does not account for. -/
theorem messages_of_readTokens {tokens : List Token} {program : Program}
    (read : (readTokens tokens).result = .ok program) :
    ∃ derivation : Derivation,
      derivation.tokens = Token.beforeEnd tokens ∧ derivation.program = program ∧
      (∀ other : Derivation, other.tokens = derivation.tokens → other = derivation) ∧
      (readTokens tokens).notes.map Note.message = Statement.allMessages derivation ∧
      (readTokens tokens).notes.countP Note.isDiscarded + Node.tokenCountAll program =
        (Token.beforeEnd tokens).length := by
  obtain ⟨derivation, derived, rfl⟩ :=
    exists_derivation ((result_readTokens tokens program).mp read)
  have notes : (readTokens tokens).notes = Statement.allNotes derivation := by
    have whole := read_derivation (Token.ending tokens) derivation
    rw [derived] at whole
    exact congrArg Noted.notes whole
  refine ⟨derivation, derived, rfl, fun other same => derivation_unique same, ?_, ?_⟩
  · rw [notes, Statement.map_message_allNotes]
  · have counted := Statement.length_allTokens derivation
    rw [notes, ← show derivation.tokens = Token.beforeEnd tokens from derived]
    show _ + Node.tokenCountAll (Statement.allNodes derivation) =
      (Statement.allTokens derivation).length
    omega

/-- A name left out in front of a branch and another one in its block, with tokens behind the
end. -/
def leftOutNames : List Token :=
  [⟨.identifier, utf8 "x", ⟨1, 2⟩⟩, ⟨.ifWord, utf8 "if", ⟨1, 5⟩⟩, ⟨.arrow, utf8 "->", ⟨1, 8⟩⟩,
    ⟨.identifier, utf8 "y", ⟨1, 10⟩⟩, ⟨.doubleArrow, utf8 "=>", ⟨1, 13⟩⟩,
    ⟨.leftBrace, utf8 "\x7b", ⟨1, 15⟩⟩, ⟨.identifier, utf8 "z", ⟨2, 2⟩⟩,
    ⟨.typeMark, utf8 "::", ⟨2, 5⟩⟩, ⟨.identifier, utf8 "w", ⟨2, 7⟩⟩,
    ⟨.identifier, utf8 "q", ⟨3, 2⟩⟩, ⟨.string, utf8 "s", ⟨3, 6⟩⟩,
    ⟨.rightBrace, utf8 "\x7d", ⟨4, 2⟩⟩, ⟨.eof, [], ⟨4, 2⟩⟩, ⟨.comma, utf8 ",", ⟨5, 2⟩⟩]

theorem messages_of_leftOutNames :
    (readTokens leftOutNames).result =
      .ok [.branch (.identifier (utf8 "y") ⟨1, 10⟩)
        (.braced [.assignment (utf8 "z") (.identifier (utf8 "w") ⟨2, 7⟩) ⟨2, 2⟩,
          .expression (.string (utf8 "s") ⟨3, 6⟩) ⟨3, 6⟩] ⟨1, 15⟩) .missing ⟨1, 5⟩] ∧
    (∃ derivation : Derivation,
      derivation.tokens = Token.beforeEnd leftOutNames ∧
      Statement.allMessages derivation =
        [utf8 "identifier x at line 1",
          utf8 "identifier x not followed by :: or ->, discarded",
          utf8 "if statement at line 1", utf8 "identifier z at line 2",
          utf8 "identifier after ::, z is reassigned", utf8 "identifier q at line 3",
          utf8 "identifier q not followed by :: or ->, discarded"]) ∧
    (readTokens leftOutNames).notes.countP Note.isDiscarded + 10 = 12 := by
  have read :
      (readTokens leftOutNames).result =
        .ok [.branch (.identifier (utf8 "y") ⟨1, 10⟩)
          (.braced [.assignment (utf8 "z") (.identifier (utf8 "w") ⟨2, 7⟩) ⟨2, 2⟩,
            .expression (.string (utf8 "s") ⟨3, 6⟩) ⟨3, 6⟩] ⟨1, 15⟩) .missing ⟨1, 5⟩] := rfl
  have notes :
      (readTokens leftOutNames).notes =
        [.named (utf8 "x") 1, .discarded (utf8 "x"), .branch 1, .named (utf8 "z") 2,
          .reassigned (utf8 "z"), .named (utf8 "q") 3, .discarded (utf8 "q")] := rfl
  obtain ⟨derivation, derived, -, -, messages, counted⟩ := messages_of_readTokens read
  refine ⟨read, ⟨derivation, derived, ?_⟩, counted⟩
  rw [← messages, notes]
  decide +kernel

end Grammar

end TriforceScript
