import TriforceScript.Proofs.Compilation.Snippet
import TriforceScript.Proofs.Grammar.Completeness
import TriforceScript.Proofs.Grammar.Soundness
import TriforceScript.Proofs.Reader.Erasure

/-!
# Snippets behind one another

The code of whole lines and of what follows them, one after the other, is the code of
both together.  The scan starts afresh behind the lines, statements never run into one
another, and that the second snippet has moved down changes only its places.
-/

namespace TriforceScript

open Lexeme (Cuts)
open Reader (State)

/-! ## Tokens and programs -/

/-- Where lexemes start does not matter to their tokens, up to places. -/
private theorem Lexeme.tokens_erase (first second : Position) (lexemes : List Lexeme) :
    (tokens first lexemes).map Token.erase = (tokens second lexemes).map Token.erase := by
  induction lexemes generalizing first second with
  | nil =>
      rfl
  | cons lexeme rest inductionHypothesis =>
      have sameToken :
          (lexeme.token? (first.advance lexeme.bytes)).toList.map Token.erase =
            (lexeme.token? (second.advance lexeme.bytes)).toList.map Token.erase := by
        unfold token?
        cases lexeme.kind? <;> rfl
      rw [tokens, tokens, List.map_append, List.map_append, sameToken,
        inductionHypothesis (first.advance lexeme.bytes) (second.advance lexeme.bytes)]

namespace Grammar

theorem Statement.allTokens_append (first second : List Statement) :
    allTokens (first ++ second) = allTokens first ++ allTokens second := by
  induction first with
  | nil =>
      rfl
  | cons statement rest inductionHypothesis =>
      rw [List.cons_append, allTokens, allTokens, inductionHypothesis, List.append_assoc]

theorem Statement.allNodes_append (first second : List Statement) :
    allNodes (first ++ second) = allNodes first ++ allNodes second := by
  induction first with
  | nil =>
      rfl
  | cons statement rest inductionHypothesis =>
      rw [List.cons_append, allNodes, allNodes, inductionHypothesis, List.cons_append]

/-- Tokens of two programs, one behind the other, are the tokens of both together: no
statement starts with what could continue the one before it. -/
theorem outcome?_append {first second : List Token} {firstProgram secondProgram : Program}
    (firstOutcome : ({} : State).outcome? first = some firstProgram)
    (secondOutcome : ({} : State).outcome? second = some secondProgram) :
    ({} : State).outcome? (first ++ second) = some (firstProgram ++ secondProgram) := by
  obtain ⟨firstDerivation, rfl, rfl⟩ := exists_derivation firstOutcome
  obtain ⟨secondDerivation, rfl, rfl⟩ := exists_derivation secondOutcome
  have together := outcome?_derivation (firstDerivation ++ secondDerivation)
  rwa [Derivation.tokens, Derivation.program, Statement.allTokens_append,
    Statement.allNodes_append] at together

end Grammar

/-! ## Texts -/

namespace JavaScript

theorem nodes_cons_eq_ok_iff {depth : Nat} {tree : Node} {rest : List Node} {texts : List Rope} :
    nodes depth (tree :: rest) = .ok texts ↔
      ∃ text others,
        node depth tree = .ok text ∧ nodes depth rest = .ok others ∧ text :: others = texts := by
  rw [nodes]
  cases node depth tree with
  | error fault => simp [bind, Except.bind]
  | ok text =>
      cases nodes depth rest with
      | error fault => simp [bind, Except.bind]
      | ok others => simp [bind, Except.bind, pure, Except.pure]

theorem nodes_append {depth : Nat} {first second : List Node} {firstTexts secondTexts : List Rope}
    (firstWritten : nodes depth first = .ok firstTexts)
    (secondWritten : nodes depth second = .ok secondTexts) :
    nodes depth (first ++ second) = .ok (firstTexts ++ secondTexts) := by
  induction first generalizing firstTexts with
  | nil =>
      rw [nodes] at firstWritten
      cases firstWritten
      exact secondWritten
  | cons tree rest inductionHypothesis =>
      obtain ⟨text, others, treeWritten, restWritten, rfl⟩ := nodes_cons_eq_ok_iff.mp firstWritten
      rw [List.cons_append, nodes_cons_eq_ok_iff]
      exact ⟨text, others ++ secondTexts, treeWritten, inductionHypothesis restWritten, rfl⟩

theorem statements_eq_ok_iff {program : Program} {code : Bytes} :
    statements program = .ok code ↔
      ∃ texts,
        nodes 0 program = .ok texts ∧
        (texts.flatMap fun text => text.onto [Bytes.lineFeed]) = code := by
  rw [statements]
  cases nodes 0 program with
  | error fault => simp [Except.map]
  | ok texts => simp [Except.map]

theorem statements_append {first second : Program} {firstCode secondCode : Bytes}
    (firstWritten : statements first = .ok firstCode)
    (secondWritten : statements second = .ok secondCode) :
    statements (first ++ second) = .ok (firstCode ++ secondCode) := by
  rw [statements_eq_ok_iff] at firstWritten secondWritten ⊢
  obtain ⟨firstTexts, firstNodes, rfl⟩ := firstWritten
  obtain ⟨secondTexts, secondNodes, rfl⟩ := secondWritten
  refine ⟨firstTexts ++ secondTexts, nodes_append firstNodes secondNodes, ?_⟩
  rw [List.flatMap_append]

end JavaScript

/-! ## Snippets -/

theorem compileSnippet_eq_ok_iff {text code : Bytes} :
    compileSnippet text = .ok code ↔
      ∃ lexemes program,
        Cuts text lexemes none ∧
        ({} : State).outcome? (Lexeme.tokens .start lexemes) = some program ∧
        JavaScript.statements program = .ok code := by
  rw [compileSnippet_eq_iff]
  constructor
  · intro compiles
    cases compiles with
    | @code lexemes reached program code cuts run ended written =>
        refine ⟨lexemes, program, cuts, ?_, written⟩
        rw [State.outcome?, run, Option.bind_some, ended]
  · rintro ⟨lexemes, program, cuts, outcome, written⟩
    obtain ⟨reached, run, ended⟩ := Option.bind_eq_some_iff.mp outcome
    exact .code cuts run ended written

theorem compileSnippet_nil : compileSnippet [] = .ok [] := rfl

/-- The code of whole lines and the code of what follows them are the code of both. -/
theorem compileSnippet_append {first second firstCode secondCode : Bytes}
    (lines : first.WholeLines) (firstCompiled : compileSnippet first = .ok firstCode)
    (secondCompiled : compileSnippet second = .ok secondCode) :
    compileSnippet (first ++ second) = .ok (firstCode ++ secondCode) := by
  rw [compileSnippet_eq_ok_iff] at firstCompiled secondCompiled ⊢
  obtain ⟨lexemes, program, cuts, outcome, written⟩ := firstCompiled
  obtain ⟨others, otherProgram, cutsOthers, otherOutcome, otherWritten⟩ := secondCompiled
  -- Behind the first snippet the second one has the same tokens in other places.
  have moved := Lexeme.tokens_erase .start (Lexeme.advance .start lexemes) others
  obtain ⟨movedProgram, movedOutcome, samePlaces⟩ := State.exists_outcome?_congr moved otherOutcome
  have movedWritten : JavaScript.statements movedProgram = .ok secondCode := by
    rw [JavaScript.statements_congr samePlaces]
    exact otherWritten
  refine ⟨lexemes ++ others, program ++ movedProgram, cuts.append lines cutsOthers, ?_, ?_⟩
  · rw [Lexeme.tokens_append]
    exact Grammar.outcome?_append outcome movedOutcome
  · exact JavaScript.statements_append written movedWritten

end TriforceScript
