import TriforceScript.Compilation
import TriforceScript.Proofs.Grammar.Soundness
import TriforceScript.Proofs.Tree.Shape

/-!
# Programs of source texts

A source text is parsed as a program if it can be cut into lexemes and the tokens of these
have an outcome.  Such a program has the shape of the language.  A compilation parses its
source text and writes the file of the program.
-/

namespace TriforceScript

open Lexeme (Cuts)
open Reader (State)

theorem parse_eq_ok_iff {source : Bytes} {program : Program} :
    (parse source).result = .ok program ↔
      ∃ lexemes,
        Cuts source lexemes none ∧
        ({} : State).outcome? (Lexeme.tokens .start lexemes) = some program := by
  have mapped (result : Except ParseFault Program) :
      result.mapError Fault.parse = .ok program ↔ result = .ok program := by
    cases result <;> simp [Except.mapError]
  have cuts := Lexeme.cuts_cutAll source
  generalize (Lexeme.cutAll source).1 = lexemes at cuts
  generalize (Lexeme.cutAll source).2 = ending at cuts
  cases ending with
  | none =>
      have read :
          (parse source).result = .ok program ↔
            ({} : State).outcome? (Lexeme.tokens .start lexemes) = some program := by
        rw [parse, cuts.scan_eq_ok]
        dsimp only
        rw [mapped, readTokens_append_end (cuts.kind_ne_eof .start) rfl, State.result_read]
      rw [read]
      constructor
      · intro outcome
        exact ⟨lexemes, cuts, outcome⟩
      · rintro ⟨others, cutsOthers, outcome⟩
        obtain ⟨rfl, -⟩ := cuts.unique cutsOthers
        exact outcome
  | some obstacle =>
      rw [parse, cuts.scan_eq_error]
      constructor
      · intro impossible
        cases impossible
      · rintro ⟨others, cutsOthers, -⟩
        have impossible := (cuts.unique cutsOthers).2
        cases impossible

/-- Every program that a source text is parsed as has the shape of the language. -/
theorem wellFormed_of_parse {source : Bytes} {program : Program}
    (parsed : (parse source).result = .ok program) : program.WellFormed := by
  obtain ⟨lexemes, cuts, outcome⟩ := parse_eq_ok_iff.mp parsed
  obtain ⟨derivation, derived, rfl⟩ := Grammar.exists_derivation outcome
  apply Grammar.Statement.isStatement_allNodes derivation
  intro token member
  have inSource : token ∈ Lexeme.tokens .start lexemes := derived ▸ member
  exact cuts.lexical .start token inSource

/-- A compilation parses the source text and then writes the file of its program. -/
theorem compile_cases (source : Bytes) :
    (∃ fault, (parse source).result = .error fault ∧ (compile source).result = .error fault) ∨
    ∃ tokens program,
      (parse source).result = .ok program ∧
      (compile source).result =
        match JavaScript.file program with
        | .ok code => .ok ⟨tokens, program, code⟩
        | .error fault => .error (.emit fault) := by
  unfold parse compile
  cases scanned : scan source with
  | error fault => exact .inl ⟨.scan fault, rfl, rfl⟩
  | ok tokens =>
      dsimp only
      cases read : (readTokens tokens).result with
      | error fault => exact .inl ⟨.parse fault, rfl, rfl⟩
      | ok program =>
          refine .inr ⟨tokens, program, rfl, ?_⟩
          change (JavaScript.file program).mapError Fault.emit >>= _ = _
          cases JavaScript.file program <;> rfl

theorem exists_compile_eq_ok_iff {source : Bytes} {program : Program} {code : Bytes} :
    (∃ tokens, (compile source).result = .ok ⟨tokens, program, code⟩) ↔
      (parse source).result = .ok program ∧ JavaScript.file program = .ok code := by
  rcases compile_cases source with ⟨fault, parsed, compiled⟩ | ⟨tokens, other, parsed, compiled⟩
  · simp [parsed, compiled]
  · rw [parsed, compiled, Except.ok.injEq]
    constructor
    · rintro ⟨_, accepted⟩
      cases written : JavaScript.file other with
      | error fault =>
          rw [written] at accepted
          cases accepted
      | ok text =>
          rw [written] at accepted
          cases accepted
          exact ⟨rfl, written⟩
    · rintro ⟨rfl, written⟩
      rw [written]
      exact ⟨tokens, rfl⟩

end TriforceScript
