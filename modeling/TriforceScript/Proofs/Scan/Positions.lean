import TriforceScript.Proofs.Scan.Longest
import TriforceScript.Proofs.Scan.Places

/-!
# Exact places

The scan counts lines and columns as it goes.  Here the place behind a text is said at once:
its line feeds give the line, and the glyphs behind the last of them the column.  Every token
has the place behind the text up to its end, and so the places of tokens grow.
-/

namespace TriforceScript

namespace Bytes

/-- What stands behind the last line feed of a text. -/
def lastLine (text : Bytes) : Bytes :=
  text.rtakeWhile (· != lineFeed)

private theorem lineFeed_notMem_lastLine (text : Bytes) : lineFeed ∉ text.lastLine := by
  intro member
  have passes := List.mem_rtakeWhile_imp member
  simp at passes

theorem lastLine_concat {byte : UInt8} (notLineFeed : byte ≠ lineFeed) (text : Bytes) :
    lastLine (text ++ [byte]) = text.lastLine ++ [byte] := by
  simp [lastLine, notLineFeed]

private theorem lastLine_cases (text : Bytes) :
    text = text.lastLine ∨ ∃ before, text = before ++ lineFeed :: text.lastLine := by
  induction text using List.reverseRecOn with
  | nil =>
      exact .inl rfl
  | append_singleton rest byte inductionHypothesis =>
      by_cases isLineFeed : byte = lineFeed
      · subst isLineFeed
        have ended : lastLine (rest ++ [lineFeed]) = [] := by
          simp [lastLine]
        rw [ended]
        exact .inr ⟨rest, rfl⟩
      · rw [lastLine_concat isLineFeed]
        rcases inductionHypothesis with whole | ⟨before, shape⟩
        · exact .inl (congrArg (· ++ [byte]) whole)
        · refine .inr ⟨before, ?_⟩
          rw [← List.cons_append, ← List.append_assoc, ← shape]

theorem glyphs_lineFeed_cons (text : Bytes) :
    glyphs (lineFeed :: text) = .char '\n' :: text.glyphs :=
  rfl

end Bytes

namespace Position

/-! ## The place behind a text -/

/-- The place behind a text, told by its line feeds and by the glyphs behind the last one. -/
def behind (text : Bytes) : Position :=
  ⟨1 + text.lineCount, 1 + text.lastLine.glyphs.length⟩

theorem advance_append (position : Position) (first : Bytes) {second : Bytes}
    (apart : ∀ byte ∈ second.head?, Glyph.isTail byte = false) :
    position.advance (first ++ second) = (position.advance first).advance second := by
  rw [advance, first.glyphs_append apart, List.foldl_append]
  rfl

private theorem column_foldl_step {text : Bytes} {read : List Glyph} (reads : text.ReadAs read)
    (noLineFeed : Bytes.lineFeed ∉ text) (position : Position) :
    (read.foldl step position).column = position.column + read.length := by
  induction reads generalizing position with
  | nil =>
      simp
  | @cons first tail behind read bytes _ inductionHypothesis =>
      rw [List.mem_append, not_or] at noLineFeed
      have counted := Glyph.count_lineFeed_front first (tail ++ behind)
      have noGlyph : Glyph.front first (tail ++ behind) ≠ .char '\n' := by
        intro isLineFeed
        rw [bytes, List.count_eq_zero_of_not_mem noLineFeed.1, if_pos isLineFeed] at counted
        omega
      rw [List.foldl_cons, inductionHypothesis noLineFeed.2, step, if_neg noGlyph,
        List.length_cons]
      push_cast
      omega

private theorem column_advance {text : Bytes} (noLineFeed : Bytes.lineFeed ∉ text)
    (position : Position) :
    (position.advance text).column = position.column + text.glyphs.length :=
  column_foldl_step text.readAs_glyphs noLineFeed position

/-- Counting as one goes leads to the place behind the text. -/
theorem advance_start (text : Bytes) : start.advance text = behind text := by
  have sameLine : (start.advance text).line = 1 + text.lineCount := line_advance start text
  have sameColumn : (start.advance text).column = 1 + text.lastLine.glyphs.length := by
    rcases text.lastLine_cases with whole | ⟨before, shape⟩
    · have noLineFeed : Bytes.lineFeed ∉ text := by
        rw [whole]
        exact text.lineFeed_notMem_lastLine
      rw [column_advance noLineFeed, ← whole]
      rfl
    · have apart : ∀ byte ∈ (Bytes.lineFeed :: text.lastLine).head?,
          Glyph.isTail byte = false := by
        intro byte isHead
        cases isHead
        decide
      rw [shape, advance_append start before apart, ← shape, advance, Bytes.glyphs_lineFeed_cons,
        List.foldl_cons, ← advance, column_advance text.lineFeed_notMem_lastLine]
      rfl
  calc
    start.advance text = ⟨(start.advance text).line, (start.advance text).column⟩ := rfl
    _ = behind text := by
      rw [sameLine, sameColumn, behind]

private theorem advance_behind (before : Bytes) {text : Bytes}
    (apart : ∀ byte ∈ text.head?, Glyph.isTail byte = false) :
    (behind before).advance text = behind (before ++ text) := by
  rw [← advance_start, ← advance_start, advance_append start before apart]

/-- Behind a string, its line feeds give the line and its characters behind the last of them the
column, however many bytes they have. -/
theorem behind_utf8 (text : String) :
    behind (utf8 text) =
      ⟨1 + text.toList.count '\n', 1 + (text.toList.rtakeWhile (· != '\n')).length⟩ := by
  rw [← advance_start, advance, Bytes.glyphs_utf8]
  generalize text.toList = chars
  induction chars using List.reverseRecOn with
  | nil =>
      rfl
  | append_singleton others value inductionHypothesis =>
      rw [List.map_append, List.foldl_append, inductionHypothesis]
      by_cases isLineFeed : value = '\n'
      · simp [step, isLineFeed]
        omega
      · simp [step, isLineFeed]
        omega

/-- A text that does not end with a line feed ends behind the first column. -/
private theorem two_le_column_behind (before : Bytes) {byte : UInt8}
    (notLineFeed : byte ≠ Bytes.lineFeed) : 2 ≤ (behind (before ++ [byte])).column := by
  have someGlyph : 0 < (Bytes.lastLine (before ++ [byte])).glyphs.length := by
    rw [Bytes.lastLine_concat notLineFeed]
    cases before.lastLine with
    | nil => exact Nat.zero_lt_succ _
    | cons first rest => exact Nat.zero_lt_succ _
  have isColumn :
      (behind (before ++ [byte])).column =
        1 + (Bytes.lastLine (before ++ [byte])).glyphs.length := rfl
  omega

/-! ## The order of places -/

/-- One place stands in front of another. -/
def Before (first second : Position) : Prop :=
  first.line < second.line ∨ first.line = second.line ∧ first.column < second.column

theorem Before.trans {first second third : Position} (isBefore : first.Before second)
    (isBehind : second.Before third) : first.Before third := by
  unfold Before at *
  omega

private theorem before_step (position : Position) (glyph : Glyph) :
    position.Before (position.step glyph) := by
  by_cases isLineFeed : glyph = .char '\n'
  · rw [step, if_pos isLineFeed]
    exact .inl (Int.lt_succ position.line)
  · rw [step, if_neg isLineFeed]
    exact .inr ⟨rfl, Int.lt_succ position.column⟩

private theorem before_foldl_step (position : Position) (glyph : Glyph) (glyphs : List Glyph) :
    position.Before ((glyph :: glyphs).foldl step position) := by
  induction glyphs generalizing position glyph with
  | nil =>
      exact position.before_step glyph
  | cons next rest inductionHypothesis =>
      rw [List.foldl_cons]
      exact (position.before_step glyph).trans (inductionHypothesis _ next)

private theorem before_advance (position : Position) (byte : UInt8) (text : Bytes) :
    position.Before (position.advance (byte :: text)) :=
  position.before_foldl_step _ _

end Position

namespace Lexical

/-! ## Places of tokens -/

/-- The tokens that pieces make behind the text `before`, each with the place behind the text
up to its end. -/
def placed (before : Bytes) : List Piece → List Token
  | [] => []
  | piece :: pieces =>
      let upToEnd := before ++ piece.bytes
      (piece.content.map fun content => ⟨content.1, content.2, .behind upToEnd⟩).toList ++
        placed upToEnd pieces

/-- What makes a token does not end with a line feed. -/
private theorem Form.exists_last {behind : Bytes} {piece : Piece} (form : Form behind piece)
    (made : piece.content ≠ none) :
    ∃ body last, piece.bytes = body ++ [last] ∧ last ≠ Bytes.lineFeed := by
  have ofNotMem {text : Bytes} (nonempty : text ≠ []) (noLineFeed : Bytes.lineFeed ∉ text) :
      ∃ body last, text = body ++ [last] ∧ last ≠ Bytes.lineFeed := by
    refine ⟨text.dropLast, text.getLast nonempty, (List.dropLast_append_getLast nonempty).symm, ?_⟩
    intro isLineFeed
    exact noLineFeed (isLineFeed ▸ List.getLast_mem nonempty)
  have noDigit : Bytes.lineFeed ∉ digits := by
    decide +kernel
  have noLetter : Bytes.lineFeed ∉ letters ++ digits := by
    decide +kernel
  have numeral {number : Bytes} (isNumeral : IsNumeral number) : Bytes.lineFeed ∉ number :=
    fun member => noDigit (isNumeral.2 _ member)
  cases form with
  | mark member =>
      have noMark : ∀ mark ∈ marks, mark.1 ≠ [] ∧ Bytes.lineFeed ∉ mark.1 := by
        decide +kernel
      obtain ⟨nonempty, noLineFeed⟩ := noMark _ member
      exact ofNotMem nonempty noLineFeed
  | string _ =>
      -- The text of a string may hold line feeds, but the quote behind it is none.
      exact ⟨_, Bytes.quote, rfl, by decide⟩
  | comment noLineFeed _ =>
      refine ofNotMem (List.append_ne_nil_of_left_ne_nil (by decide) _) ?_
      rw [List.mem_append, not_or]
      exact ⟨by decide, noLineFeed⟩
  | whole isNumeral =>
      exact ofNotMem isNumeral.1 (numeral isNumeral)
  | @fraction number _ _ isNumeral =>
      obtain ⟨body, last, shape, notLineFeed⟩ := ofNotMem isNumeral.1 (numeral isNumeral)
      refine ⟨number ++ utf8 "." ++ body, last, ?_, notLineFeed⟩
      rw [shape, ← List.append_assoc]
  | name isName =>
      obtain ⟨⟨first, rest, rfl, isLetter, inWord⟩, -⟩ := isName
      refine ofNotMem (List.cons_ne_nil first rest) ?_
      rw [List.mem_cons, not_or]
      exact ⟨fun isFirst => noLetter (isFirst ▸ List.mem_append_left _ isLetter),
        fun member => noLetter (inWord _ member)⟩
  | ifWord | writeWord =>
      exact ofNotMem (by decide) (by decide)
  | blank _ | colon _ | minus _ | slash _ | slashUnderscore _ =>
      exact (made rfl).elim

/-- No lexeme starts with a byte that could continue a glyph. -/
private theorem Form.isTail_head {behind : Bytes} {piece : Piece} (form : Form behind piece) :
    ∀ byte ∈ piece.bytes.head?, Glyph.isTail byte = false := by
  have ascii : ∀ byte ∈ letters ++ digits, Glyph.isTail byte = false := by
    decide +kernel
  have numeral {number : Bytes} (isNumeral : IsNumeral number) (rest : Bytes) :
      ∀ byte ∈ (number ++ rest).head?, Glyph.isTail byte = false := by
    intro byte isHead
    rw [List.head?_append_of_ne_nil _ isNumeral.1] at isHead
    exact ascii byte (List.mem_append_right _ (isNumeral.2 byte (List.mem_of_head? isHead)))
  cases form with
  | mark member =>
      have asciiMark : ∀ mark ∈ marks, ∀ byte ∈ mark.1.head?, Glyph.isTail byte = false := by
        decide +kernel
      exact asciiMark _ member
  | whole isNumeral =>
      have starts := numeral isNumeral []
      rwa [List.append_nil] at starts
  | fraction isNumeral _ =>
      dsimp only
      rw [List.append_assoc]
      exact numeral isNumeral _
  | name isName =>
      obtain ⟨⟨first, rest, rfl, isLetter, -⟩, -⟩ := isName
      intro byte isHead
      cases isHead
      exact ascii first (List.mem_append_left _ isLetter)
  | blank isBlank =>
      have asciiBlank : ∀ byte ∈ utf8 " \t\r\n", Glyph.isTail byte = false := by
        decide +kernel
      intro byte isHead
      cases isHead
      exact asciiBlank _ isBlank
  | string _ | comment _ _ | ifWord | writeWord | colon _ | minus _ | slash _
  | slashUnderscore _ =>
      intro byte isHead
      cases isHead
      decide

end Lexical

namespace Lexeme

open Lexical

section Counting

variable {text : Bytes} {lexemes : List Lexeme} {obstacle : Option Obstacle}

/-- Counting on from the place behind a text leads behind that text and the lexeme. -/
private theorem advance_behind_of_cut {first : UInt8} {tail behind : Bytes} {lexeme : Lexeme}
    (cutOff : cut first (tail ++ behind) = .ok lexeme) (bytes : lexeme.bytes = first :: tail)
    (before : Bytes) :
    (Position.behind before).advance lexeme.bytes = .behind (before ++ lexeme.bytes) :=
  Position.advance_behind before (form_of_cut cutOff bytes).isTail_head

theorem Cuts.tokens_behind (cuts : Cuts text lexemes obstacle) (before : Bytes) :
    tokens (.behind before) lexemes = placed before (lexemes.map piece) := by
  induction cuts generalizing before with
  | done | stuck _ =>
      rfl
  | @lexeme first tail behind lexeme lexemes _ cutOff bytes _ inductionHypothesis =>
      rw [tokens, advance_behind_of_cut cutOff bytes, inductionHypothesis, List.map_cons, placed]
      cases isKind : lexeme.kind? with
      | none => simp [token?, piece, isKind]
      | some kind => simp [token?, piece, isKind]

theorem Cuts.advance_behind (cuts : Cuts text lexemes none) (before : Bytes) :
    advance (.behind before) lexemes = .behind (before ++ text) := by
  generalize whole : (none : Option Obstacle) = ending at cuts
  induction cuts generalizing before with
  | done =>
      rw [List.append_nil]
      rfl
  | stuck _ =>
      cases whole
  | @lexeme first tail behind lexeme lexemes _ cutOff bytes _ inductionHypothesis =>
      have counted := inductionHypothesis (before ++ lexeme.bytes) whole
      rw [← advance_behind_of_cut cutOff bytes, bytes, List.append_assoc] at counted
      rw [← counted, ← bytes]
      rfl

private theorem pos_of_token? {lexeme : Lexeme} {pos : Position} {token : Token}
    (made : lexeme.token? pos = some token) : token.pos = pos := by
  obtain ⟨kind, -, rfl⟩ := Option.map_eq_some_iff.mp made
  rfl

/-- Every token ends behind the place where the lexemes start, and behind all tokens in front
of it. -/
theorem Cuts.before_tokens (cuts : Cuts text lexemes obstacle) (position : Position) :
    (∀ token ∈ tokens position lexemes, position.Before token.pos) ∧
      (tokens position lexemes).Pairwise fun first second => first.pos.Before second.pos := by
  induction cuts generalizing position with
  | done | stuck _ =>
      simp [tokens]
  | @lexeme first tail behind lexeme lexemes _ cutOff bytes _ inductionHypothesis =>
      have ends : position.Before (position.advance lexeme.bytes) := by
        rw [bytes]
        exact position.before_advance first tail
      obtain ⟨later, ordered⟩ := inductionHypothesis (position.advance lexeme.bytes)
      rw [tokens]
      cases made : lexeme.token? (position.advance lexeme.bytes) with
      | none =>
          exact ⟨fun token member => ends.trans (later token member), ordered⟩
      | some token =>
          have isEnd := pos_of_token? made
          rw [Option.toList_some, List.singleton_append, List.forall_mem_cons,
            List.pairwise_cons, isEnd]
          exact ⟨⟨ends, fun other member => ends.trans (later other member)⟩, later, ordered⟩

private theorem Cuts.eq_or_before_advance (cuts : Cuts text lexemes obstacle) (position : Position)
    :
    position = advance position lexemes ∨ position.Before (advance position lexemes) := by
  induction cuts generalizing position with
  | done | stuck _ =>
      exact .inl rfl
  | @lexeme first tail behind lexeme lexemes _ cutOff bytes _ inductionHypothesis =>
      have ends : position.Before (position.advance lexeme.bytes) := by
        rw [bytes]
        exact position.before_advance first tail
      rcases inductionHypothesis (position.advance lexeme.bytes) with same | isBefore
      · exact .inr (same ▸ ends)
      · exact .inr (ends.trans isBefore)

/-- No token ends behind the place where the lexemes end. -/
private theorem Cuts.eq_or_before_end (cuts : Cuts text lexemes obstacle) (position : Position) :
    ∀ token ∈ tokens position lexemes,
      token.pos = advance position lexemes ∨ token.pos.Before (advance position lexemes) := by
  induction cuts generalizing position with
  | done | stuck _ =>
      simp [tokens]
  | @lexeme first tail behind lexeme lexemes _ cutOff bytes cuts inductionHypothesis =>
      intro token member
      rw [tokens, List.mem_append, Option.mem_toList] at member
      rcases member with isFirst | inRest
      · rw [pos_of_token? isFirst]
        exact cuts.eq_or_before_advance (position.advance lexeme.bytes)
      · exact inductionHypothesis _ token inRest

private theorem Cuts.two_le_column (cuts : Cuts text lexemes obstacle) (before : Bytes) :
    ∀ token ∈ tokens (.behind before) lexemes, 2 ≤ token.pos.column := by
  induction cuts generalizing before with
  | done | stuck _ =>
      simp [tokens]
  | @lexeme first tail behind lexeme lexemes _ cutOff bytes _ inductionHypothesis =>
      intro token member
      rw [tokens, advance_behind_of_cut cutOff bytes, List.mem_append, Option.mem_toList] at member
      rcases member with isFirst | inRest
      · obtain ⟨kind, isKind, -⟩ := Option.map_eq_some_iff.mp isFirst
        have made : lexeme.piece.content ≠ none := by
          simp [piece, isKind]
        obtain ⟨body, last, shape, notLineFeed⟩ := (form_of_cut cutOff bytes).exists_last made
        have whole : lexeme.bytes = body ++ [last] := shape
        rw [pos_of_token? isFirst, whole, ← List.append_assoc]
        exact Position.two_le_column_behind (before ++ body) notLineFeed
      · exact inductionHypothesis _ token inRest

end Counting

end Lexeme

open Lexical

/-- Positions are exact.  A text that can be scanned has been cut into longest lexemes, and each
token has the place behind the text up to the end of its lexeme, the last one behind the whole
text.  So the places of the other tokens grow strictly, none of them is behind the end, and each
is behind the first column. -/
theorem scan_positions {source : Bytes} {tokens : List Token} (scanned : scan source = .ok tokens) :
    ∃ pieces,
      joined pieces = source ∧ LongestCut [] pieces ∧
      tokens = placed [] pieces ++ [⟨.eof, [], .behind source⟩] ∧
      ((placed [] pieces).Pairwise fun first second => first.pos.Before second.pos) ∧
      ∀ token ∈ placed [] pieces,
        token.kind ≠ .eof ∧ 2 ≤ token.pos.column ∧
        (token.pos = .behind source ∨ token.pos.Before (.behind source)) := by
  obtain ⟨lexemes, cuts, rfl⟩ := Lexeme.exists_cuts_of_scan_eq_ok scanned
  obtain ⟨rest, whole, longest, ends⟩ := cuts.exists_longestCut
  cases ends
  rw [List.append_nil] at whole
  have isEnd : Lexeme.advance .start lexemes = .behind source := cuts.advance_behind []
  have arePlaced : Lexeme.tokens .start lexemes = placed [] (lexemes.map Lexeme.piece) :=
    cuts.tokens_behind []
  refine ⟨lexemes.map Lexeme.piece, whole, longest, ?_, ?_, ?_⟩
  · rw [arePlaced, Lexeme.endToken, isEnd]
  · rw [← arePlaced]
    exact (cuts.before_tokens .start).2
  · intro token member
    rw [← arePlaced] at member
    have inOrder := cuts.eq_or_before_end .start token member
    rw [isEnd] at inOrder
    exact ⟨cuts.kind_ne_eof .start token member, cuts.two_le_column [] token member, inOrder⟩

/-- A string over two lines with a character of two bytes in each of them and a stray byte, and a
comment behind it that the text ends in. -/
def strayString : Bytes :=
  utf8 "x :: \"é\n" ++ 0xFF :: utf8 "é\" /_\\ r"

theorem scan_positions_strayString :
    scan strayString =
      .ok [⟨.identifier, utf8 "x", ⟨1, 2⟩⟩, ⟨.typeMark, utf8 "::", ⟨1, 5⟩⟩,
        ⟨.string, utf8 "é\n" ++ 0xFF :: utf8 "é", ⟨2, 4⟩⟩, ⟨.comment, utf8 "r", ⟨2, 10⟩⟩,
        ⟨.eof, [], ⟨2, 10⟩⟩] ∧
    Position.behind strayString = ⟨2, 10⟩ ∧
    ∃ pieces,
      joined pieces = strayString ∧ LongestCut [] pieces ∧
      placed [] pieces =
        [⟨.identifier, utf8 "x", ⟨1, 2⟩⟩, ⟨.typeMark, utf8 "::", ⟨1, 5⟩⟩,
          ⟨.string, utf8 "é\n" ++ 0xFF :: utf8 "é", ⟨2, 4⟩⟩, ⟨.comment, utf8 "r", ⟨2, 10⟩⟩] := by
  have scanned :
      scan strayString =
        .ok ([⟨.identifier, utf8 "x", ⟨1, 2⟩⟩, ⟨.typeMark, utf8 "::", ⟨1, 5⟩⟩,
          ⟨.string, utf8 "é\n" ++ 0xFF :: utf8 "é", ⟨2, 4⟩⟩, ⟨.comment, utf8 "r", ⟨2, 10⟩⟩] ++
            [⟨.eof, [], ⟨2, 10⟩⟩]) := rfl
  obtain ⟨pieces, whole, longest, arePlaced, -⟩ := scan_positions scanned
  exact ⟨scanned, by decide, pieces, whole, longest, (List.append_inj_left' arePlaced rfl).symm⟩

end TriforceScript
