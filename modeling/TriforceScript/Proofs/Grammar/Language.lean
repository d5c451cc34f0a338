import TriforceScript.Proofs.Grammar.Unambiguity

/-!
# The language of the reader

The reader makes a program of exactly those tokens that have a derivation, and that
program is the tree of their only derivation.
-/

namespace TriforceScript

namespace Grammar

/-- Tokens up to their end are read as a program exactly if they have a derivation with
that program, and they have no other derivation. -/
theorem result_readTokens_iff_derivation {tokens : List Token}
    (proper : ∀ token ∈ tokens, token.kind ≠ .eof) {endToken : Token}
    (ends : endToken.kind = .eof) :
    (∀ program : Program,
      (readTokens (tokens ++ [endToken])).result = .ok program ↔
        ∃ derivation : Derivation,
          derivation.tokens = tokens ∧ derivation.program = program) ∧
    ∀ first second : Derivation,
      first.tokens = tokens → second.tokens = tokens → first = second := by
  constructor
  · intro program
    rw [readTokens_append_end proper ends, Reader.State.result_read]
    constructor
    · exact exists_derivation
    · rintro ⟨derivation, rfl, rfl⟩
      exact outcome?_derivation derivation
  · intro first second firstTokens secondTokens
    exact derivation_unique (firstTokens.trans secondTokens.symm)

/-- A name that is left out, a string by itself and an assignment, without separators. -/
def unseparated : List Token :=
  [⟨.identifier, utf8 "x", ⟨1, 2⟩⟩, ⟨.string, utf8 "a", ⟨1, 6⟩⟩, ⟨.identifier, utf8 "y", ⟨1, 8⟩⟩,
    ⟨.arrow, utf8 "->", ⟨1, 11⟩⟩, ⟨.string, utf8 "b", ⟨1, 15⟩⟩]

theorem result_readTokens_unseparated :
    (∀ token ∈ unseparated, token.kind ≠ .eof) ∧
    (⟨.eof, [], ⟨1, 15⟩⟩ : Token).kind = .eof ∧
    (readTokens (unseparated ++ [⟨.eof, [], ⟨1, 15⟩⟩])).result =
      .ok [.expression (.string (utf8 "a") ⟨1, 6⟩) ⟨1, 6⟩,
        .assignment (utf8 "y") (.string (utf8 "b") ⟨1, 15⟩) ⟨1, 8⟩] := by
  have proper : ∀ token ∈ unseparated, token.kind ≠ .eof := by
    decide
  let derivation : Derivation :=
    [.expression (some ⟨⟨.identifier, utf8 "x", ⟨1, 2⟩⟩, rfl⟩)
        ⟨⟨.string ⟨⟨.string, utf8 "a", ⟨1, 6⟩⟩, rfl⟩, []⟩, []⟩ (by simp),
      .assignment ⟨⟨.identifier, utf8 "y", ⟨1, 8⟩⟩, rfl⟩ ⟨⟨.arrow, utf8 "->", ⟨1, 11⟩⟩, rfl⟩
        ⟨⟨.string ⟨⟨.string, utf8 "b", ⟨1, 15⟩⟩, rfl⟩, []⟩, []⟩]
  exact ⟨proper, rfl,
    ((result_readTokens_iff_derivation proper rfl).1 _).mpr ⟨derivation, rfl, rfl⟩⟩

end Grammar

end TriforceScript
