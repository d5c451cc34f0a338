import TriforceScript.Proofs.Scan.LineEnds

/-!
# Tokens of whole lines

The tokens of a text are those of its lexemes.  A text of whole lines that can be scanned
keeps its tokens whatever follows, and one with an unexpected glyph keeps its fault.
-/

namespace TriforceScript

namespace Lexeme

/-! ## Lexemes behind one another -/

theorem tokens_append (position : Position) (first second : List Lexeme) :
    tokens position (first ++ second) =
      tokens position first ++ tokens (advance position first) second := by
  induction first generalizing position with
  | nil =>
      rfl
  | cons lexeme rest inductionHypothesis =>
      rw [List.cons_append, tokens, tokens, inductionHypothesis, List.append_assoc]
      rfl

/-- The token for the end of lexemes. -/
def endToken (lexemes : List Lexeme) : Token :=
  ⟨.eof, [], advance .start lexemes⟩

private theorem kind_ne_eof_of_token? {lexeme : Lexeme} (proper : lexeme.kind? ≠ some .eof)
    {pos : Position} {token : Token} (made : lexeme.token? pos = some token) :
    token.kind ≠ .eof := by
  obtain ⟨kind, isKind, rfl⟩ := Option.map_eq_some_iff.mp made
  intro isEnd
  subst isEnd
  exact proper isKind

/-- The tokens of a text are not for its end. -/
theorem Cuts.kind_ne_eof {text : Bytes} {lexemes : List Lexeme} {obstacle : Option Obstacle}
    (cuts : Cuts text lexemes obstacle) (position : Position) :
    ∀ token ∈ tokens position lexemes, token.kind ≠ .eof := by
  induction cuts generalizing position with
  | done =>
      intro token member
      cases member
  | stuck _ =>
      intro token member
      cases member
  | lexeme cutOff _ _ inductionHypothesis =>
      intro token member
      rw [tokens, List.mem_append] at member
      rcases member with isFirst | inRest
      · rw [Option.mem_toList] at isFirst
        exact kind_ne_eof_of_token? (kind?_ne_eof_of_cut cutOff) isFirst
      · exact inductionHypothesis _ token inRest

/-! ## Scanning -/

theorem Cuts.scan_eq_ok {text : Bytes} {lexemes : List Lexeme} (cuts : Cuts text lexemes none) :
    scan text = .ok (tokens .start lexemes ++ [endToken lexemes]) := by
  rw [scan, cuts.cutAll_eq]
  rfl

theorem Cuts.scan_eq_error {text : Bytes} {lexemes : List Lexeme} {obstacle : Obstacle}
    (cuts : Cuts text lexemes (some obstacle)) :
    scan text = .error (obstacle.fault (advance .start lexemes)) := by
  rw [scan, cuts.cutAll_eq]

theorem Cuts.unique {text : Bytes} {first second : List Lexeme}
    {firstEnd secondEnd : Option Obstacle} (cutsFirst : Cuts text first firstEnd)
    (cutsSecond : Cuts text second secondEnd) : first = second ∧ firstEnd = secondEnd := by
  have equal := cutsFirst.cutAll_eq.symm.trans cutsSecond.cutAll_eq
  exact ⟨congrArg Prod.fst equal, congrArg Prod.snd equal⟩

theorem exists_cuts_of_scan_eq_ok {text : Bytes} {scanned : List Token}
    (ends : scan text = .ok scanned) :
    ∃ lexemes, Cuts text lexemes none ∧ scanned = tokens .start lexemes ++ [endToken lexemes] := by
  have cuts := cuts_cutAll text
  generalize (cutAll text).1 = lexemes at cuts
  generalize (cutAll text).2 = ending at cuts
  cases ending with
  | none =>
      rw [cuts.scan_eq_ok] at ends
      cases ends
      exact ⟨lexemes, cuts, rfl⟩
  | some obstacle =>
      rw [cuts.scan_eq_error] at ends
      cases ends

theorem exists_cuts_of_scan_eq_error {text : Bytes} {fault : ScanFault}
    (fails : scan text = .error fault) :
    ∃ lexemes obstacle,
      Cuts text lexemes (some obstacle) ∧ fault = obstacle.fault (advance .start lexemes) := by
  have cuts := cuts_cutAll text
  generalize (cutAll text).1 = lexemes at cuts
  generalize (cutAll text).2 = ending at cuts
  cases ending with
  | none =>
      rw [cuts.scan_eq_ok] at fails
      cases fails
  | some obstacle =>
      rw [cuts.scan_eq_error] at fails
      cases fails
      exact ⟨lexemes, obstacle, cuts, rfl⟩

/-! ## Whole lines -/

private theorem Cuts.exists_line {line : Bytes} {lexemes : List Lexeme} {obstacle : Option Obstacle}
    (cuts : Cuts (line ++ [Bytes.lineFeed]) lexemes obstacle) :
    (∃ before, Cuts line before none ∧ lexemes = before ++ [lineEnd] ∧ obstacle = none) ∨
    (∃ glyph, Cuts line lexemes (some (.unexpected glyph)) ∧
      obstacle = some (.unexpected glyph)) ∨
    ∃ unread, obstacle = some (.unterminated unread) := by
  have cutsLine := cuts_cutAll line
  generalize (cutAll line).1 = before at cutsLine
  generalize (cutAll line).2 = ending at cutsLine
  match ending with
  | none =>
      obtain ⟨rfl, rfl⟩ := cuts.unique (cutsLine.append_line .done)
      exact .inl ⟨before, cutsLine, rfl, rfl⟩
  | some (.unexpected glyph) =>
      obtain ⟨rfl, rfl⟩ := cuts.unique (cutsLine.append_line_of_unexpected [])
      exact .inr (.inl ⟨glyph, cutsLine, rfl⟩)
  | some (.unterminated unread) =>
      obtain ⟨rfl, rfl⟩ := cuts.unique cutsLine.append_line_of_unterminated
      exact .inr (.inr ⟨_, rfl⟩)

end Lexeme

/-- Whether a text is made of whole lines. -/
def Bytes.WholeLines (text : Bytes) : Prop :=
  ∀ byte ∈ text.getLast?, byte = lineFeed

theorem Bytes.wholeLines_of_getLast? {text : Bytes} (ends : text.getLast? = some lineFeed) :
    text.WholeLines := by
  intro byte last
  rw [ends] at last
  exact (Option.some.inj last).symm

theorem Bytes.wholeLines_append {first second : Bytes} (firstLines : first.WholeLines)
    (secondLines : second.WholeLines) : (first ++ second).WholeLines := by
  intro byte last
  rw [List.getLast?_append, Option.mem_def, Option.or_eq_some_iff] at last
  rcases last with inSecond | ⟨-, inFirst⟩
  · exact secondLines byte inSecond
  · exact firstLines byte inFirst

private theorem Bytes.WholeLines.eq_nil_or {text : Bytes} (lines : text.WholeLines) :
    text = [] ∨ ∃ line, text = line ++ [lineFeed] := by
  rcases text.eq_nil_or_concat with empty | ⟨line, byte, rfl⟩
  · exact .inl empty
  · rw [List.concat_eq_append] at lines ⊢
    have isLineFeed : byte = lineFeed := lines byte List.getLast?_concat
    subst isLineFeed
    exact .inr ⟨line, rfl⟩

namespace Lexeme

/-- Behind whole lines that can be cut, cutting starts afresh. -/
theorem Cuts.append {text more : Bytes} {lexemes others : List Lexeme}
    {obstacle : Option Obstacle} (lines : text.WholeLines) (cuts : Cuts text lexemes none)
    (cutsMore : Cuts more others obstacle) :
    Cuts (text ++ more) (lexemes ++ others) obstacle := by
  rcases lines.eq_nil_or with rfl | ⟨line, rfl⟩
  · obtain ⟨rfl, -⟩ := cuts.unique .done
    exact cutsMore
  · rcases cuts.exists_line with ⟨before, cutsLine, rfl, -⟩ | ⟨_, -, impossible⟩ | ⟨_, impossible⟩
    · rw [List.append_assoc, List.append_assoc]
      exact cutsLine.append_line cutsMore
    · cases impossible
    · cases impossible

/-- An unexpected glyph in whole lines stops the cutting whatever follows. -/
theorem Cuts.append_of_unexpected {text : Bytes} {lexemes : List Lexeme} {glyph : Glyph}
    (lines : text.WholeLines) (cuts : Cuts text lexemes (some (.unexpected glyph)))
    (more : Bytes) : Cuts (text ++ more) lexemes (some (.unexpected glyph)) := by
  rcases lines.eq_nil_or with rfl | ⟨line, rfl⟩
  · cases cuts
  · rcases cuts.exists_line with ⟨_, -, -, impossible⟩ | ⟨other, cutsLine, same⟩ | ⟨_, impossible⟩
    · cases impossible
    · cases same
      rw [List.append_assoc]
      exact cutsLine.append_line_of_unexpected more
    · cases impossible

end Lexeme

end TriforceScript
