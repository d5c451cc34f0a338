import TriforceScript.Token.Scan

/-!
# Cutting texts

The lexemes of a text as a derivation: one lexeme after another is cut from the front,
up to the end of the text or to an obstacle.  Cutting is followed by induction on such a
derivation, and every text has exactly one.
-/

namespace TriforceScript

namespace Lexeme

/-! ## Single lexemes -/

theorem mem_of_lookup_eq_some {Key Value : Type} [BEq Key] [LawfulBEq Key]
    {table : List (Key × Value)} {key : Key} {value : Value}
    (found : table.lookup key = some value) : (key, value) ∈ table := by
  obtain ⟨before, behind, shape, -⟩ := List.lookup_eq_some_iff.mp found
  rw [shape]
  exact List.mem_append_right before (List.Mem.head behind)

private theorem pair?_ne_eof {first second : UInt8} : pair? first second ≠ some .eof := by
  intro found
  have member := mem_of_lookup_eq_some found
  simp at member

private theorem single?_ne_eof {byte : UInt8} : single? byte ≠ some .eof := by
  intro found
  have member := mem_of_lookup_eq_some found
  simp at member

private theorem cutSlash_bytes (rest : Bytes) :
    ∃ tail behind, (cutSlash rest).bytes = 0x2F :: tail ∧ rest = tail ++ behind := by
  unfold cutSlash
  split
  · rename_i marker
    refine ⟨0x5F :: 0x5C :: (rest.drop 2).takeWhile (· != Bytes.lineFeed),
      (rest.drop 2).dropWhile (· != Bytes.lineFeed), rfl, ?_⟩
    calc
      rest = rest.take 2 ++ rest.drop 2 := (List.take_append_drop 2 rest).symm
      _ = _ := by simp [marker]
  · split
    · rename_i underscore
      refine ⟨[0x5F], rest.drop 1, rfl, ?_⟩
      rw [← underscore, List.take_append_drop]
    · exact ⟨[], rest, rfl, rfl⟩

private theorem fraction_isPrefix (text : Bytes) : fraction text <+: text := by
  unfold fraction
  split
  · split
    · rename_i point digit rest _
      exact (List.prefix_cons_inj point).mpr <|
        (List.prefix_cons_inj digit).mpr (List.takeWhile_prefix _)
    · exact List.nil_prefix
  · exact List.nil_prefix

private theorem cutNumber_bytes {first : UInt8} (digit : isDigit first = true) (rest : Bytes) :
    ∃ tail behind, (cutNumber (first :: rest)).bytes = first :: tail ∧ rest = tail ++ behind := by
  obtain ⟨behind, shape⟩ := fraction_isPrefix (rest.dropWhile isDigit)
  refine ⟨rest.takeWhile isDigit ++ fraction (rest.dropWhile isDigit), behind, ?_, ?_⟩
  · simp [cutNumber, digit]
  · rw [List.append_assoc, shape, List.takeWhile_append_dropWhile]

theorem takeWhile_ne_append {quoted behind : Bytes} (noQuote : Bytes.quote ∉ quoted) :
    (quoted ++ Bytes.quote :: behind).takeWhile (· != Bytes.quote) = quoted := by
  have positive : ∀ byte ∈ quoted, (byte != Bytes.quote) = true := by
    intro byte member
    simp only [bne_iff_ne]
    intro equal
    exact noQuote (equal ▸ member)
  rw [List.takeWhile_append_of_pos positive]
  simp

private theorem cutString_eq_ok {rest : Bytes} {lexeme : Lexeme}
    (cutOff : cutString rest = .ok lexeme) :
    ∃ quoted behind,
      Bytes.quote ∉ quoted ∧ rest = quoted ++ Bytes.quote :: behind ∧
      lexeme = ⟨.string, Bytes.quote :: quoted ++ [Bytes.quote]⟩ := by
  unfold cutString at cutOff
  split at cutOff
  · rename_i closed
    obtain ⟨quoted, behind, rfl, noQuote⟩ := List.eq_append_cons_of_mem closed
    cases cutOff
    exact ⟨quoted, behind, noQuote, rfl, by rw [takeWhile_ne_append noQuote]⟩
  · cases cutOff

/-- What can be cut from the front of a text. -/
theorem cut_eq_ok {first : UInt8} {rest : Bytes} {lexeme : Lexeme}
    (cutOff : cut first rest = .ok lexeme) :
    (∃ second behind kind,
      rest = second :: behind ∧ pair? first second = some kind ∧
      lexeme = ⟨.mark kind, [first, second]⟩) ∨
    (∃ kind, single? first = some kind ∧ lexeme = ⟨.mark kind, [first]⟩) ∨
    (isIdle first = true ∧ lexeme = ⟨.blank, [first]⟩) ∨
    (first = 0x2F ∧ lexeme = cutSlash rest) ∨
    (first = Bytes.quote ∧ ∃ quoted behind,
      Bytes.quote ∉ quoted ∧ rest = quoted ++ Bytes.quote :: behind ∧
      lexeme = ⟨.string, Bytes.quote :: quoted ++ [Bytes.quote]⟩) ∨
    (isDigit first = true ∧ lexeme = cutNumber (first :: rest)) ∨
    (isWordStart first = true ∧ lexeme = ⟨.word, first :: rest.takeWhile isWordByte⟩) := by
  unfold cut at cutOff
  split at cutOff
  · rename_i _ kind paired
    cases rest with
    | nil => simp at paired
    | cons second behind =>
        cases cutOff
        exact .inl ⟨second, behind, kind, rfl, paired, rfl⟩
  · rename_i kind _ single
    cases cutOff
    exact .inr (.inl ⟨kind, single, rfl⟩)
  · split at cutOff
    · rename_i idle
      cases cutOff
      exact .inr (.inr (.inl ⟨idle, rfl⟩))
    split at cutOff
    · rename_i slash
      cases cutOff
      exact .inr (.inr (.inr (.inl ⟨slash, rfl⟩)))
    split at cutOff
    · rename_i quote
      exact .inr (.inr (.inr (.inr (.inl ⟨quote, cutString_eq_ok cutOff⟩))))
    split at cutOff
    · rename_i digit
      cases cutOff
      exact .inr (.inr (.inr (.inr (.inr (.inl ⟨digit, rfl⟩)))))
    split at cutOff
    · rename_i wordStart
      cases cutOff
      exact .inr (.inr (.inr (.inr (.inr (.inr ⟨wordStart, rfl⟩)))))
    · cases cutOff

/-- What can stop the cutting: a quote without a second one, or a glyph. -/
theorem cut_eq_error {first : UInt8} {rest : Bytes} {obstacle : Obstacle}
    (blocked : cut first rest = .error obstacle) :
    (first = Bytes.quote ∧ Bytes.quote ∉ rest ∧
      obstacle = .unterminated (Bytes.quote :: rest)) ∨
    obstacle = .unexpected (Glyph.front first rest) := by
  unfold cut at blocked
  split at blocked
  · cases blocked
  · cases blocked
  · split at blocked
    · cases blocked
    split at blocked
    · cases blocked
    split at blocked
    · rename_i isQuote
      unfold cutString at blocked
      split at blocked
      · cases blocked
      · rename_i unclosed
        cases blocked
        exact .inl ⟨isQuote, unclosed, rfl⟩
    split at blocked
    · cases blocked
    split at blocked
    · cases blocked
    · cases blocked
      exact .inr rfl

/-- A lexeme is cut from the front of the text and takes at least one byte. -/
theorem cut_bytes {first : UInt8} {rest : Bytes} {lexeme : Lexeme}
    (cutOff : cut first rest = .ok lexeme) :
    ∃ tail behind, lexeme.bytes = first :: tail ∧ rest = tail ++ behind := by
  rcases cut_eq_ok cutOff with
    ⟨second, behind, kind, rfl, -, rfl⟩ | ⟨kind, -, rfl⟩ | ⟨-, rfl⟩ | ⟨rfl, rfl⟩ |
      ⟨rfl, quoted, behind, -, rfl, rfl⟩ | ⟨digit, rfl⟩ | ⟨-, rfl⟩
  · exact ⟨[second], behind, rfl, rfl⟩
  · exact ⟨[], rest, rfl, rfl⟩
  · exact ⟨[], rest, rfl, rfl⟩
  · exact cutSlash_bytes rest
  · exact ⟨quoted ++ [Bytes.quote], behind, rfl, by simp⟩
  · exact cutNumber_bytes digit rest
  · exact ⟨rest.takeWhile isWordByte, rest.dropWhile isWordByte, rfl,
      List.takeWhile_append_dropWhile.symm⟩

/-- No lexeme makes a token for the end. -/
theorem kind?_ne_eof_of_cut {first : UInt8} {rest : Bytes} {lexeme : Lexeme}
    (cutOff : cut first rest = .ok lexeme) : lexeme.kind? ≠ some .eof := by
  rcases cut_eq_ok cutOff with
    ⟨second, behind, kind, rfl, paired, rfl⟩ | ⟨kind, single, rfl⟩ | ⟨-, rfl⟩ | ⟨rfl, rfl⟩ |
      ⟨rfl, quoted, behind, -, rfl, rfl⟩ | ⟨digit, rfl⟩ | ⟨-, rfl⟩
  · show some kind ≠ some .eof
    rw [← paired]
    exact pair?_ne_eof
  · show some kind ≠ some .eof
    rw [← single]
    exact single?_ne_eof
  · simp [kind?]
  · unfold cutSlash
    split
    · simp [kind?]
    · split <;> simp [kind?]
  · simp [kind?]
  · simp [kind?, cutNumber]
  · simp only [kind?, Token.Kind.ofWord]
    split
    · simp
    · split <;> simp

/-! ## Whole texts -/

private theorem cutAfter_eq (skipped : Nat) (text : Bytes) :
    cutAfter skipped text = cutAll (text.drop skipped) := by
  induction text generalizing skipped with
  | nil =>
      cases skipped <;> rfl
  | cons first rest inductionHypothesis =>
      cases skipped with
      | zero => rfl
      | succ skipped =>
          rw [cutAfter, List.drop_succ_cons]
          exact inductionHypothesis skipped

/-- `Cuts text lexemes obstacle` means that cutting `text` gives `lexemes` and ends with
`obstacle`, if there is one before the end. -/
inductive Cuts : Bytes → List Lexeme → Option Obstacle → Prop
  | done : Cuts [] [] none
  | stuck {first : UInt8} {rest : Bytes} {obstacle : Obstacle} :
      cut first rest = .error obstacle →
      Cuts (first :: rest) [] (some obstacle)
  | lexeme {first : UInt8} {tail behind : Bytes} {lexeme : Lexeme} {lexemes : List Lexeme}
      {obstacle : Option Obstacle} :
      cut first (tail ++ behind) = .ok lexeme →
      lexeme.bytes = first :: tail →
      Cuts behind lexemes obstacle →
      Cuts (first :: tail ++ behind) (lexeme :: lexemes) obstacle

theorem Cuts.cutAll_eq {text : Bytes} {lexemes : List Lexeme} {obstacle : Option Obstacle}
    (cuts : Cuts text lexemes obstacle) : cutAll text = (lexemes, obstacle) := by
  induction cuts with
  | done =>
      rfl
  | stuck blocked =>
      rw [cutAll, cutAfter, blocked]
  | lexeme cutOff bytes _ inductionHypothesis =>
      rw [cutAll, List.cons_append, cutAfter, cutOff]
      simp [bytes, cutAfter_eq, inductionHypothesis]

theorem cuts_cutAll (text : Bytes) : Cuts text (cutAll text).1 (cutAll text).2 := by
  match text with
  | [] => exact .done
  | first :: rest =>
      cases cutOff : cut first rest with
      | error obstacle =>
          rw [(Cuts.stuck cutOff).cutAll_eq]
          exact .stuck cutOff
      | ok lexeme =>
          obtain ⟨tail, behind, bytes, rfl⟩ := cut_bytes cutOff
          have cuts := Cuts.lexeme cutOff bytes (cuts_cutAll behind)
          rw [← List.cons_append, cuts.cutAll_eq]
          exact cuts
termination_by text.length
decreasing_by
  subst_vars
  simp only [List.length_cons, List.length_append]
  omega

end Lexeme

end TriforceScript
