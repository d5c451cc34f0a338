import TriforceScript.Proofs.Scan.Cutting
import TriforceScript.Proofs.Text.Glyphs

/-!
# Cutting at line ends

No lexeme but a string reaches over a line feed, and none looks beyond it.  So a text is
cut in the same way whatever follows a line feed behind it, unless it ends inside of a
string, and cutting starts afresh behind that line feed.
-/

namespace TriforceScript

/-! ## What stops at a line feed -/

section Stops

variable (test : UInt8 → Bool) {byte : UInt8} (stops : test byte = false) (text more : Bytes)

include stops

private theorem takeWhile_append_stop :
    (text ++ byte :: more).takeWhile test = text.takeWhile test := by
  induction text with
  | nil => simp [stops]
  | cons first rest inductionHypothesis =>
      cases passes : test first <;> simp [passes, inductionHypothesis]

private theorem dropWhile_append_stop :
    (text ++ byte :: more).dropWhile test = text.dropWhile test ++ byte :: more := by
  induction text with
  | nil => simp [stops]
  | cons first rest inductionHypothesis =>
      cases passes : test first <;> simp [passes, inductionHypothesis]

end Stops

private theorem Glyph.front_append_line (first : UInt8) (rest more : Bytes) :
    front first (rest ++ Bytes.lineFeed :: more) = front first rest := by
  apply front_append
  intro byte isHead
  cases isHead
  decide

namespace Lexeme

private theorem pair?_lineFeed (first : UInt8) : pair? first Bytes.lineFeed = none := by
  simp [pair?, Bytes.lineFeed]

private theorem cutSlash_append_line (rest more : Bytes) :
    cutSlash (rest ++ Bytes.lineFeed :: more) = cutSlash rest := by
  match rest with
  | [] => simp [cutSlash, Bytes.lineFeed]
  | [_] => simp [cutSlash, Bytes.lineFeed]
  | _ :: _ :: others =>
      have sameLine :=
        takeWhile_append_stop (· != Bytes.lineFeed) (bne_self_eq_false Bytes.lineFeed) others more
      simp [cutSlash, sameLine]

private theorem cutString_append_line {rest : Bytes} (closed : Bytes.quote ∈ rest) (more : Bytes) :
    cutString (rest ++ Bytes.lineFeed :: more) = cutString rest := by
  obtain ⟨quoted, behind, rfl, noQuote⟩ := List.eq_append_cons_of_mem closed
  simp [cutString, takeWhile_ne_append noQuote]

private theorem fraction_append_line (text more : Bytes) :
    fraction (text ++ Bytes.lineFeed :: more) = fraction text := by
  have noDigit : isDigit Bytes.lineFeed = false := by
    decide
  match text with
  | [] => cases more <;> simp [fraction, Bytes.lineFeed]
  | [_] => simp [fraction, noDigit]
  | _ :: _ :: _ => simp [fraction, takeWhile_append_stop isDigit noDigit]

private theorem cutNumber_append_line (text more : Bytes) :
    cutNumber (text ++ Bytes.lineFeed :: more) = cutNumber text := by
  have noDigit : isDigit Bytes.lineFeed = false := by
    decide
  rw [cutNumber, cutNumber, takeWhile_append_stop isDigit noDigit, dropWhile_append_stop isDigit noDigit,
    fraction_append_line]

/-- A lexeme does not depend on a line feed behind it and on what follows that, unless it
is a string that has not been closed. -/
theorem cut_append_line {first : UInt8} {rest : Bytes}
    (closed : first = Bytes.quote → Bytes.quote ∈ rest) (more : Bytes) :
    cut first (rest ++ Bytes.lineFeed :: more) = cut first rest := by
  have noWord : isWordByte Bytes.lineFeed = false := by
    decide
  have samePair :
      (rest ++ Bytes.lineFeed :: more).head?.bind (pair? first) =
        rest.head?.bind (pair? first) := by
    cases rest with
    | nil => exact pair?_lineFeed first
    | cons second behind => rfl
  unfold cut
  rw [samePair]
  split
  · rename_i paired
    cases rest with
    | nil => simp at paired
    | cons second behind => rfl
  · rfl
  · rw [cutSlash_append_line, ← List.cons_append, cutNumber_append_line,
      takeWhile_append_stop isWordByte noWord, Glyph.front_append_line]
    by_cases isQuote : first = Bytes.quote
    · rw [cutString_append_line (closed isQuote)]
    · simp only [isQuote, if_false]

/-! ## Whole texts -/

/-- The lexeme of a line feed by itself. -/
def lineEnd : Lexeme :=
  ⟨.blank, [Bytes.lineFeed]⟩

theorem cut_lineFeed (rest : Bytes) : cut Bytes.lineFeed rest = .ok lineEnd := by
  have noPair (second : UInt8) : pair? Bytes.lineFeed second = none := by
    simp [pair?, Bytes.lineFeed]
  have noSingle : single? Bytes.lineFeed = none := by
    decide
  have idle : isIdle Bytes.lineFeed = true := by
    decide
  unfold cut
  cases rest <;> simp [noPair, noSingle, idle, lineEnd]

theorem cut_quote (rest : Bytes) : cut Bytes.quote rest = cutString rest := by
  have noPair (second : UInt8) : pair? Bytes.quote second = none := by
    simp [pair?, Bytes.quote]
  have noSingle : single? Bytes.quote = none := by
    decide
  have notIdle : isIdle Bytes.quote = false := by
    decide
  have noSlash : Bytes.quote ≠ 0x2F := by
    decide
  unfold cut
  cases rest <;> simp [noPair, noSingle, notIdle, noSlash]

private theorem closed_of_cut {first : UInt8} {rest : Bytes}
    (terminated : ∀ bytes, cut first rest ≠ .error (.unterminated bytes))
    (isQuote : first = Bytes.quote) : Bytes.quote ∈ rest := by
  by_cases closed : Bytes.quote ∈ rest
  · exact closed
  · subst isQuote
    have unterminated := terminated (Bytes.quote :: rest)
    simp [cut_quote, cutString, closed] at unterminated

private theorem Cuts.lexeme_append_line {first : UInt8} {tail behind more : Bytes} {lexeme : Lexeme}
    {lexemes : List Lexeme} {obstacle : Option Obstacle}
    (cutOff : cut first (tail ++ behind) = .ok lexeme) (bytes : lexeme.bytes = first :: tail)
    (cuts : Cuts (behind ++ Bytes.lineFeed :: more) lexemes obstacle) :
    Cuts (first :: tail ++ behind ++ Bytes.lineFeed :: more) (lexeme :: lexemes) obstacle := by
  have closed : first = Bytes.quote → Bytes.quote ∈ tail ++ behind := by
    apply closed_of_cut
    simp [cutOff]
  rw [← cut_append_line closed more, List.append_assoc] at cutOff
  rw [List.append_assoc]
  exact Cuts.lexeme cutOff bytes cuts

/-- Behind a text that is cut as a whole and a line feed, cutting starts afresh. -/
theorem Cuts.append_line {text more : Bytes} {lexemes others : List Lexeme}
    {obstacle : Option Obstacle} (cuts : Cuts text lexemes none)
    (cutsMore : Cuts more others obstacle) :
    Cuts (text ++ Bytes.lineFeed :: more) (lexemes ++ lineEnd :: others) obstacle := by
  generalize whole : (none : Option Obstacle) = ending at cuts
  induction cuts with
  | done =>
      exact @Cuts.lexeme Bytes.lineFeed [] more lineEnd others obstacle (cut_lineFeed more) rfl cutsMore
  | stuck blocked =>
      cases whole
  | lexeme cutOff bytes _ inductionHypothesis =>
      exact Cuts.lexeme_append_line cutOff bytes (inductionHypothesis whole)

/-- A glyph that starts no lexeme stops the cutting, whatever follows a line feed behind
the text. -/
theorem Cuts.append_line_of_unexpected {text : Bytes} {lexemes : List Lexeme} {glyph : Glyph}
    (cuts : Cuts text lexemes (some (.unexpected glyph))) (more : Bytes) :
    Cuts (text ++ Bytes.lineFeed :: more) lexemes (some (.unexpected glyph)) := by
  generalize unexpected : some (Obstacle.unexpected glyph) = ending at cuts
  induction cuts with
  | done =>
      cases unexpected
  | @stuck first rest obstacle blocked =>
      cases unexpected
      have closed : first = Bytes.quote → Bytes.quote ∈ rest := by
        apply closed_of_cut
        simp [blocked]
      rw [← cut_append_line closed more] at blocked
      exact Cuts.stuck blocked
  | lexeme cutOff bytes _ inductionHypothesis =>
      exact Cuts.lexeme_append_line cutOff bytes (inductionHypothesis unexpected)

/-- A string that has not been closed stays open behind a line feed. -/
theorem Cuts.append_line_of_unterminated {text unread : Bytes} {lexemes : List Lexeme}
    (cuts : Cuts text lexemes (some (.unterminated unread))) :
    Cuts (text ++ [Bytes.lineFeed]) lexemes
      (some (.unterminated (unread ++ [Bytes.lineFeed]))) := by
  generalize unterminated : some (Obstacle.unterminated unread) = ending at cuts
  induction cuts with
  | done =>
      cases unterminated
  | @stuck first rest obstacle blocked =>
      cases unterminated
      rcases cut_eq_error blocked with ⟨rfl, unclosed, obstacle⟩ | unexpected
      · cases obstacle
        have unclosed' : Bytes.quote ∉ rest ++ [Bytes.lineFeed] := by
          simp [unclosed, Bytes.quote, Bytes.lineFeed]
        apply Cuts.stuck
        simp [cut_quote, cutString, unclosed']
      · cases unexpected
  | lexeme cutOff bytes _ inductionHypothesis =>
      exact Cuts.lexeme_append_line cutOff bytes (inductionHypothesis unterminated)

end Lexeme

end TriforceScript
