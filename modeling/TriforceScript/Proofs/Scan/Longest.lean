import TriforceScript.Proofs.Scan.Forms

/-!
# Longest lexemes

A text is cut from left to right, and at each place the longest lexeme is taken that the
text goes on with.  This rule leaves no choice, and the scan follows it: it fails exactly
where no lexeme stands, and its tokens are those that the lexemes make.
-/

namespace TriforceScript

namespace Lexical

/-- Of all lexemes that the text goes on with, `piece` is the longest. -/
def Longest (behind : Bytes) (piece : Piece) : Prop :=
  Form behind piece ∧
    ∀ other otherBehind,
      Form otherBehind other →
      other.bytes ++ otherBehind = piece.bytes ++ behind →
      other.bytes.length ≤ piece.bytes.length

/-- No lexeme stands at the front of `text`. -/
def Stuck (text : Bytes) : Prop :=
  ∀ piece behind, Form behind piece → piece.bytes ++ behind ≠ text

/-- What a fault says about the text that it has been found at. -/
def Blames (text : Bytes) : ScanFault → Prop
  | .unterminated _ => ∃ unread, text = Bytes.quote :: unread ∧ Bytes.quote ∉ unread
  | .unexpected glyph _ => text.head? ≠ some Bytes.quote ∧ glyph.bytes <+: text

def joined (pieces : List Piece) : Bytes :=
  pieces.flatMap Piece.bytes

/-- Each of `pieces` is the longest lexeme at its place when `rest` follows them. -/
def LongestCut (rest : Bytes) : List Piece → Prop
  | [] => True
  | piece :: pieces => Longest (joined pieces ++ rest) piece ∧ LongestCut rest pieces

end Lexical

namespace Lexeme

open Lexical

/-! ## A lexeme is cut off, or a longer one -/

/-- Where `piece` stands, it is cut off, or a lexeme that is longer. -/
def Reaches (behind : Bytes) (piece : Piece) : Prop :=
  ∃ first tail lexeme,
    piece.bytes = first :: tail ∧
    cut first (tail ++ behind) = .ok lexeme ∧
    (lexeme.piece = piece ∨ piece.bytes.length < lexeme.bytes.length)

private theorem reaches_mark {spelling behind : Bytes} {kind : Token.Kind}
    (member : (spelling, kind) ∈ marks) : Reaches behind ⟨spelling, some (kind, spelling)⟩ := by
  rcases mem_marks_iff.mp member with ⟨first, second, rfl, paired⟩ | ⟨first, rfl, single⟩
  · exact ⟨first, [second], _, rfl, cut_pair paired behind, .inl rfl⟩
  · -- A mark of one byte may be the start of one that has two.
    cases unpaired : behind.head?.bind (pair? first) with
    | none => exact ⟨first, [], _, rfl, cut_single single unpaired, .inl rfl⟩
    | some longer =>
        obtain ⟨second, head, paired⟩ := Option.bind_eq_some_iff.mp unpaired
        obtain ⟨more, rfl⟩ := List.head?_eq_some_iff.mp head
        exact ⟨first, [], _, rfl, cut_pair paired more, .inr (by simp)⟩

theorem cut_string {quoted : Bytes} (noQuote : Bytes.quote ∉ quoted) (behind : Bytes) :
    cut Bytes.quote (quoted ++ [Bytes.quote] ++ behind) =
      .ok ⟨.string, Bytes.quote :: quoted ++ [Bytes.quote]⟩ := by
  rw [cut_quote, List.append_assoc, List.singleton_append, cutString, if_pos (by simp),
    takeWhile_ne_append noQuote]

private theorem reaches_string {quoted behind : Bytes} (noQuote : Bytes.quote ∉ quoted) :
    Reaches behind ⟨Bytes.quote :: quoted ++ [Bytes.quote], some (.string, quoted)⟩ := by
  refine ⟨Bytes.quote, quoted ++ [Bytes.quote], _, rfl, cut_string noQuote behind, .inl ?_⟩
  simp [piece, kind?, text]

theorem cut_slash (rest : Bytes) : cut 0x2F rest = .ok (cutSlash rest) := by
  cases rest <;> rfl

theorem cut_comment {line behind : Bytes} (noLineFeed : Bytes.lineFeed ∉ line)
    (ends : behind = [] ∨ behind.head? = some Bytes.lineFeed) :
    cut 0x2F (0x5F :: 0x5C :: line ++ behind) =
      .ok ⟨.comment, 0x2F :: 0x5F :: 0x5C :: line⟩ := by
  have passes : ∀ byte ∈ line, (byte != Bytes.lineFeed) = true := by
    intro byte member
    simp only [bne_iff_ne]
    intro equal
    exact noLineFeed (equal ▸ member)
  have stops : behind.takeWhile (· != Bytes.lineFeed) = [] := by
    rcases ends with rfl | followed
    · rfl
    · obtain ⟨more, rfl⟩ := List.head?_eq_some_iff.mp followed
      rfl
  simp [cut_slash, cutSlash, List.takeWhile_append_of_pos passes, stops]

private theorem reaches_comment {line behind : Bytes} (noLineFeed : Bytes.lineFeed ∉ line)
    (ends : behind = [] ∨ behind.head? = some Bytes.lineFeed) :
    Reaches behind ⟨utf8 "/_\\" ++ line, some (.comment, line.trim)⟩ :=
  ⟨0x2F, 0x5F :: 0x5C :: line, _, rfl, cut_comment noLineFeed ends, .inl rfl⟩

/-- The bytes that start a lexeme other than a number or a word. -/
def special : Bytes :=
  utf8 "()\x7b\x7d[],;=:-/\" \t\r\n"

/-- Only a colon, an equals sign and a minus sign start marks of two bytes. -/
theorem pair?_eq_none {first : UInt8} (single : first ∉ [0x3A, 0x3D, 0x2D]) (rest : Bytes) :
    rest.head?.bind (pair? first) = none := by
  simp only [List.mem_cons, List.not_mem_nil, or_false, not_or] at single
  cases rest with
  | nil => rfl
  | cons second behind =>
      rw [List.head?_cons, Option.bind_some, pair?, List.lookup_eq_none_iff]
      simp [single]

theorem cut_of_plain {first : UInt8} (plain : first ∉ special) (rest : Bytes) :
    cut first rest =
      if isDigit first then
        .ok (cutNumber (first :: rest))
      else if isWordStart first then
        .ok ⟨.word, first :: rest.takeWhile isWordByte⟩
      else
        .error (.unexpected (Glyph.front first rest)) := by
  have spelled :
      special =
        [0x28, 0x29, 0x7B, 0x7D, 0x5B, 0x5D, 0x2C, 0x3B, 0x3D, 0x3A, 0x2D, 0x2F, 0x22, 0x20,
          0x09, 0x0D, 0x0A] := by
    decide
  simp only [spelled, List.mem_cons, List.not_mem_nil, or_false, not_or] at plain
  have noSingle : single? first = none := by
    rw [single?, List.lookup_eq_none_iff]
    simp [plain]
  have unpaired : rest.head?.bind (pair? first) = none :=
    pair?_eq_none (by simp [plain]) rest
  have notIdle : isIdle first = false := by
    simp [isIdle, plain]
  unfold cut
  rw [unpaired, noSingle]
  simp [notIdle, plain]

theorem cut_digit {first : UInt8} (digit : isDigit first = true) (rest : Bytes) :
    cut first rest = .ok (cutNumber (first :: rest)) := by
  have noDigit : ∀ byte ∈ special, isDigit byte = false := by
    decide +kernel
  have plain : first ∉ special := by
    intro member
    rw [noDigit first member] at digit
    cases digit
  rw [cut_of_plain plain, if_pos digit]

theorem cut_wordStart {first : UInt8} (wordStart : isWordStart first = true) (rest : Bytes) :
    cut first rest = .ok ⟨.word, first :: rest.takeWhile isWordByte⟩ := by
  have noStart : ∀ byte ∈ special ++ digits, isWordStart byte = false := by
    decide +kernel
  have plain : first ∉ special ++ digits := by
    intro member
    rw [noStart first member] at wordStart
    cases wordStart
  rw [List.mem_append, not_or, ← isDigit_iff] at plain
  rw [cut_of_plain plain.1, if_neg plain.2, if_pos wordStart]

private theorem reaches_of_bytes {behind : Bytes} (lexeme : Lexeme) {first : UInt8}
    {tail more : Bytes}
    (cutOff : cut first (tail ++ behind) = .ok ⟨lexeme.cls, first :: tail ++ more⟩)
    (bytes : lexeme.bytes = first :: tail) : Reaches behind lexeme.piece := by
  refine ⟨first, tail, _, bytes, cutOff, ?_⟩
  cases more with
  | nil =>
      rw [List.append_nil, ← bytes]
      exact .inl rfl
  | cons byte others =>
      refine .inr ?_
      rw [piece, bytes]
      simp

private theorem exists_cons_of_isNumeral {number : Bytes} (numeral : IsNumeral number) :
    ∃ first tail, number = first :: tail ∧ ∀ byte ∈ number, isDigit byte = true := by
  obtain ⟨nonempty, allDigits⟩ := numeral
  obtain ⟨first, tail, rfl⟩ := List.exists_cons_of_ne_nil nonempty
  refine ⟨first, tail, rfl, ?_⟩
  intro byte member
  exact (isDigit_iff byte).mpr (allDigits byte member)

private theorem reaches_whole {number behind : Bytes} (numeral : IsNumeral number) :
    Reaches behind ⟨number, some (.number, number)⟩ := by
  obtain ⟨first, tail, rfl, allDigits⟩ := exists_cons_of_isNumeral numeral
  have cutOff :
      cut first (tail ++ behind) =
        .ok ⟨.number,
          first :: tail ++ (behind.takeWhile isDigit ++ fraction (behind.dropWhile isDigit))⟩ := by
    rw [cut_digit (allDigits first (by simp)), cutNumber, ← List.cons_append,
      List.takeWhile_append_of_pos allDigits, List.dropWhile_append_of_pos allDigits,
      List.append_assoc]
  exact reaches_of_bytes ⟨.number, first :: tail⟩ cutOff rfl

private theorem reaches_fraction {number decimals behind : Bytes} (numeral : IsNumeral number)
    (isNumeral : IsNumeral decimals) :
    Reaches behind
      ⟨number ++ utf8 "." ++ decimals, some (.number, number ++ utf8 "." ++ decimals)⟩ := by
  obtain ⟨first, tail, rfl, allDigits⟩ := exists_cons_of_isNumeral numeral
  obtain ⟨decimal, others, rfl, allDecimals⟩ := exists_cons_of_isNumeral isNumeral
  have cutOff :
      cut first (tail ++ utf8 "." ++ decimal :: others ++ behind) =
        .ok ⟨.number,
          first :: (tail ++ utf8 "." ++ decimal :: others) ++ behind.takeWhile isDigit⟩ := by
    have numberTaken :
        (first :: tail ++ 0x2E :: decimal :: (others ++ behind)).takeWhile isDigit =
          first :: tail := by
      rw [List.takeWhile_append_of_pos allDigits, List.takeWhile_cons_of_neg (by decide),
        List.append_nil]
    have numberDropped :
        (first :: tail ++ 0x2E :: decimal :: (others ++ behind)).dropWhile isDigit =
          0x2E :: decimal :: (others ++ behind) := by
      rw [List.dropWhile_append_of_pos allDigits, List.dropWhile_cons_of_neg (by decide)]
    have decimalsTaken : fraction (0x2E :: decimal :: (others ++ behind)) =
        0x2E :: decimal :: (others ++ behind.takeWhile isDigit) := by
      rw [fraction, if_pos ⟨rfl, allDecimals decimal (by simp)⟩,
        List.takeWhile_append_of_pos (fun byte member => allDecimals byte (by simp [member]))]
    have point : utf8 "." = [0x2E] := rfl
    have shape :
        tail ++ utf8 "." ++ decimal :: others ++ behind =
          tail ++ 0x2E :: decimal :: (others ++ behind) := by
      simp [point]
    rw [shape, cut_digit (allDigits first (by simp)), cutNumber, ← List.cons_append, numberTaken,
      numberDropped, decimalsTaken]
    simp [point]
  exact reaches_of_bytes ⟨.number, first :: (tail ++ utf8 "." ++ decimal :: others)⟩ cutOff rfl

theorem cut_word {first : UInt8} {rest : Bytes} (isWord : IsWord (first :: rest))
    (behind : Bytes) :
    cut first (rest ++ behind) = .ok ⟨.word, first :: rest ++ behind.takeWhile isWordByte⟩ := by
  obtain ⟨first, rest, shape, isLetter, inWord⟩ := isWord
  cases shape
  have wordBytes : ∀ byte ∈ rest, isWordByte byte = true := by
    intro byte member
    exact (isWordByte_iff byte).mpr (inWord byte member)
  rw [cut_wordStart ((isWordStart_iff first).mpr isLetter), List.takeWhile_append_of_pos wordBytes]
  rfl

private theorem reaches_word {word behind : Bytes} (isWord : IsWord word) :
    Reaches behind (piece ⟨.word, word⟩) := by
  have ⟨first, rest, shape, _, _⟩ := isWord
  subst shape
  exact reaches_of_bytes ⟨.word, first :: rest⟩ (cut_word isWord behind) rfl

theorem cut_blank {byte : UInt8} (isBlank : byte ∈ utf8 " \t\r\n") (rest : Bytes) :
    cut byte rest = .ok ⟨.blank, [byte]⟩ := by
  have spelled : utf8 " \t\r\n" = [0x20, 0x09, 0x0D, 0x0A] := rfl
  simp only [spelled, List.mem_cons, List.not_mem_nil, or_false] at isBlank
  rcases isBlank with rfl | rfl | rfl | rfl <;> cases rest <;> rfl

/-- A byte that means nothing by itself is dropped unless the byte that makes a mark of it
follows. -/
private theorem cut_idle {first second : UInt8} {behind : Bytes} (idle : isIdle first = true)
    (noSingle : single? first = none)
    (onlyPair : ∀ other kind, pair? first other = some kind → other = second)
    (notFollowed : behind.head? ≠ some second) : cut first behind = .ok ⟨.blank, [first]⟩ := by
  have unpaired : behind.head?.bind (pair? first) = none := by
    rw [Option.bind_eq_none_iff]
    intro other head
    rw [Option.eq_none_iff_forall_ne_some]
    intro kind paired
    rw [onlyPair other kind paired] at head
    exact notFollowed head
  unfold cut
  rw [unpaired, noSingle]
  simp [idle]

theorem cut_colon {behind : Bytes} (notFollowed : behind.head? ≠ some 0x3A) :
    cut 0x3A behind = .ok ⟨.blank, [0x3A]⟩ := by
  have onlyPair (other : UInt8) (kind : Token.Kind) (paired : pair? 0x3A other = some kind) :
      other = 0x3A := by
    have member := mem_of_lookup_eq_some paired
    simp at member
    exact member.1
  exact cut_idle rfl rfl onlyPair notFollowed

private theorem reaches_colon {behind : Bytes} (notFollowed : behind.head? ≠ some 0x3A) :
    Reaches behind ⟨utf8 ":", none⟩ :=
  ⟨0x3A, [], _, rfl, cut_colon notFollowed, .inl rfl⟩

theorem cut_minus {behind : Bytes} (notFollowed : behind.head? ≠ some 0x3E) :
    cut 0x2D behind = .ok ⟨.blank, [0x2D]⟩ := by
  have onlyPair (other : UInt8) (kind : Token.Kind) (paired : pair? 0x2D other = some kind) :
      other = 0x3E := by
    have member := mem_of_lookup_eq_some paired
    simp at member
    exact member.1
  exact cut_idle rfl rfl onlyPair notFollowed

private theorem reaches_minus {behind : Bytes} (notFollowed : behind.head? ≠ some 0x3E) :
    Reaches behind ⟨utf8 "-", none⟩ :=
  ⟨0x2D, [], _, rfl, cut_minus notFollowed, .inl rfl⟩

theorem cut_loneSlash {behind : Bytes} (notFollowed : behind.head? ≠ some 0x5F) :
    cut 0x2F behind = .ok ⟨.blank, [0x2F]⟩ := by
  rw [cut_slash]
  cases behind with
  | nil => rfl
  | cons second more =>
      have different : second ≠ 0x5F := by
        simpa using notFollowed
      simp [cutSlash, different]

private theorem reaches_slash {behind : Bytes} (notFollowed : behind.head? ≠ some 0x5F) :
    Reaches behind ⟨utf8 "/", none⟩ :=
  ⟨0x2F, [], _, rfl, cut_loneSlash notFollowed, .inl rfl⟩

theorem cut_slashUnderscore {behind : Bytes} (notFollowed : behind.head? ≠ some 0x5C) :
    cut 0x2F (0x5F :: behind) = .ok ⟨.blank, [0x2F, 0x5F]⟩ := by
  rw [cut_slash]
  cases behind with
  | nil => rfl
  | cons second more =>
      have different : second ≠ 0x5C := by
        simpa using notFollowed
      simp [cutSlash, different]

private theorem reaches_slashUnderscore {behind : Bytes} (notFollowed : behind.head? ≠ some 0x5C) :
    Reaches behind ⟨utf8 "/_", none⟩ :=
  ⟨0x2F, [0x5F], _, rfl, cut_slashUnderscore notFollowed, .inl rfl⟩

private theorem reaches_of_form {behind : Bytes} {piece : Piece} (form : Form behind piece) :
    Reaches behind piece := by
  cases form with
  | mark member => exact reaches_mark member
  | string noQuote => exact reaches_string noQuote
  | comment noLineFeed ends => exact reaches_comment noLineFeed ends
  | whole numeral => exact reaches_whole numeral
  | fraction numeral isNumeral => exact reaches_fraction numeral isNumeral
  | @name word isName =>
      have made : Lexeme.piece ⟨.word, word⟩ = ⟨word, some (.identifier, word)⟩ := by
        obtain ⟨-, notIf, notWrite⟩ := isName
        simp [Lexeme.piece, kind?, text, Token.Kind.ofWord, notIf, notWrite]
      rw [← made]
      exact reaches_word isName.1
  | ifWord =>
      have isWord : IsWord (utf8 "if") := ⟨_, _, rfl, by decide, by decide +kernel⟩
      exact reaches_word isWord
  | writeWord =>
      have isWord : IsWord (utf8 "write") := ⟨_, _, rfl, by decide, by decide +kernel⟩
      exact reaches_word isWord
  | @blank byte isBlank => exact ⟨byte, [], _, rfl, cut_blank isBlank behind, .inl rfl⟩
  | colon notFollowed => exact reaches_colon notFollowed
  | minus notFollowed => exact reaches_minus notFollowed
  | slash notFollowed => exact reaches_slash notFollowed
  | slashUnderscore notFollowed => exact reaches_slashUnderscore notFollowed

/-! ## The longest lexeme is the one that is cut off -/

private theorem exists_form_of_cut {first : UInt8} {rest : Bytes} {lexeme : Lexeme}
    (cutOff : cut first rest = .ok lexeme) :
    ∃ behind, Form behind lexeme.piece ∧ lexeme.piece.bytes ++ behind = first :: rest := by
  obtain ⟨tail, behind, bytes, rfl⟩ := cut_bytes cutOff
  refine ⟨behind, form_of_cut cutOff bytes, ?_⟩
  rw [piece, bytes, List.cons_append]

theorem longest_iff {behind : Bytes} {piece : Piece} :
    Longest behind piece ↔
      ∃ first tail lexeme,
        piece.bytes = first :: tail ∧
        cut first (tail ++ behind) = .ok lexeme ∧ lexeme.piece = piece := by
  constructor
  · rintro ⟨form, longest⟩
    obtain ⟨first, tail, lexeme, bytes, cutOff, same | longer⟩ := reaches_of_form form
    · exact ⟨first, tail, lexeme, bytes, cutOff, same⟩
    · -- What is cut off is a lexeme of the same text, so it cannot be longer.
      obtain ⟨behind', formCut, sameText⟩ := exists_form_of_cut cutOff
      rw [← List.cons_append, ← bytes] at sameText
      have notLonger : lexeme.bytes.length ≤ piece.bytes.length := longest _ _ formCut sameText
      omega
  · rintro ⟨first, tail, lexeme, bytes, cutOff, rfl⟩
    refine ⟨form_of_cut cutOff bytes, ?_⟩
    intro other otherBehind otherForm sameText
    obtain ⟨first', tail', lexeme', bytes', cutOff', reached⟩ := reaches_of_form otherForm
    rw [bytes, bytes', List.cons_append, List.cons_append] at sameText
    obtain ⟨rfl, sameRest⟩ := List.cons.inj sameText
    rw [sameRest, cutOff] at cutOff'
    cases cutOff'
    rcases reached with same | longer
    · rw [same]
    · exact Nat.le_of_lt longer

theorem stuck_iff {first : UInt8} {rest : Bytes} :
    Stuck (first :: rest) ↔ ∃ obstacle, cut first rest = .error obstacle := by
  constructor
  · intro stuck
    cases cutOff : cut first rest with
    | error obstacle => exact ⟨obstacle, rfl⟩
    | ok lexeme =>
        obtain ⟨behind, form, sameText⟩ := exists_form_of_cut cutOff
        exact (stuck _ _ form sameText).elim
  · rintro ⟨obstacle, blocked⟩ piece behind form sameText
    obtain ⟨first', tail, lexeme, bytes, cutOff, -⟩ := reaches_of_form form
    rw [bytes, List.cons_append] at sameText
    obtain ⟨rfl, rfl⟩ := List.cons.inj sameText
    rw [blocked] at cutOff
    cases cutOff

/-! ## Whole texts -/

theorem Cuts.exists_longestCut {text : Bytes} {lexemes : List Lexeme} {obstacle : Option Obstacle}
    (cuts : Cuts text lexemes obstacle) :
    ∃ rest,
      joined (lexemes.map piece) ++ rest = text ∧ LongestCut rest (lexemes.map piece) ∧
      Cuts rest [] obstacle := by
  induction cuts with
  | done =>
      exact ⟨[], rfl, trivial, .done⟩
  | stuck blocked =>
      exact ⟨_, rfl, trivial, .stuck blocked⟩
  | @lexeme first tail behind lexeme lexemes obstacle cutOff bytes _ inductionHypothesis =>
      obtain ⟨rest, rfl, longest, ends⟩ := inductionHypothesis
      refine ⟨rest, ?_, ⟨longest_iff.mpr ⟨first, tail, lexeme, bytes, cutOff, rfl⟩, longest⟩, ends⟩
      rw [List.map_cons, joined, List.flatMap_cons, List.append_assoc, piece, bytes]
      rfl

private theorem exists_cuts_of_longestCut {rest : Bytes} {pieces : List Piece}
    (longest : LongestCut rest pieces) {others : List Lexeme} {obstacle : Option Obstacle}
    (cutsRest : Cuts rest others obstacle) :
    ∃ lexemes,
      lexemes.map piece = pieces ∧ Cuts (joined pieces ++ rest) (lexemes ++ others) obstacle := by
  induction pieces with
  | nil =>
      exact ⟨[], rfl, cutsRest⟩
  | cons first pieces inductionHypothesis =>
      obtain ⟨lexemes, rfl, cuts⟩ := inductionHypothesis longest.2
      obtain ⟨byte, tail, lexeme, bytes, cutOff, rfl⟩ := longest_iff.mp longest.1
      refine ⟨lexeme :: lexemes, rfl, ?_⟩
      have whole := Cuts.lexeme cutOff bytes cuts
      rw [joined, List.flatMap_cons, List.append_assoc, bytes]
      exact whole

private theorem content_tokens (position : Position) (lexemes : List Lexeme) :
    (tokens position lexemes).map Token.content =
      (lexemes.map piece).filterMap Piece.content := by
  induction lexemes generalizing position with
  | nil =>
      rfl
  | cons lexeme rest inductionHypothesis =>
      rw [tokens, List.map_append, inductionHypothesis, List.map_cons, List.filterMap_cons]
      cases isKind : lexeme.kind? with
      | none => simp [token?, piece, isKind]
      | some kind => simp [token?, piece, isKind, Token.content]

private theorem blames_of_cut {first : UInt8} {rest : Bytes} {obstacle : Obstacle}
    (blocked : cut first rest = .error obstacle) (position : Position) :
    Blames (first :: rest) (obstacle.fault position) := by
  rcases cut_eq_error blocked with ⟨rfl, unclosed, rfl⟩ | rfl
  · exact ⟨rest, rfl, unclosed⟩
  · have noQuote : first ≠ Bytes.quote := by
      rintro rfl
      rw [cut_quote, cutString] at blocked
      split at blocked <;> cases blocked
    obtain ⟨tail, behind, rfl, bytes⟩ := Glyph.front_bytes first rest
    refine ⟨?_, behind, ?_⟩
    · simpa using noQuote
    · rw [bytes, List.cons_append]

end Lexeme

namespace Lexical

open Lexeme

/-- The scan of a text succeeds exactly if the text can be cut into longest lexemes from left
to right.  Its tokens are then those that the lexemes make, in their order, and a last one for
the end.  If it fails, the text has been cut up to a place where no lexeme stands, and the
fault tells why: a quote without a second one, or a glyph that starts nothing. -/
theorem scan_longestCut (source : Bytes) :
    ((∃ tokens, scan source = .ok tokens) ↔
      ∃ pieces, joined pieces = source ∧ LongestCut [] pieces) ∧
    (∀ tokens pieces,
      scan source = .ok tokens → joined pieces = source → LongestCut [] pieces →
        ∃ before endToken,
          tokens = before ++ [endToken] ∧ endToken.kind = .eof ∧
          before.map Token.content = pieces.filterMap Piece.content) ∧
    ∀ fault, scan source = .error fault →
      ∃ pieces rest,
        joined pieces ++ rest = source ∧ LongestCut rest pieces ∧
        rest ≠ [] ∧ Stuck rest ∧ Blames rest fault := by
  have cuts := cuts_cutAll source
  generalize (cutAll source).1 = lexemes at cuts
  generalize (cutAll source).2 = ending at cuts
  have cutsOf {pieces : List Piece} (whole : joined pieces = source)
      (longest : LongestCut [] pieces) : lexemes.map piece = pieces ∧ ending = none := by
    obtain ⟨others, rfl, cutsOthers⟩ := exists_cuts_of_longestCut longest .done
    rw [List.append_nil, List.append_nil, whole] at cutsOthers
    obtain ⟨rfl, rfl⟩ := cuts.unique cutsOthers
    exact ⟨rfl, rfl⟩
  obtain ⟨rest, whole, longest, ends⟩ := cuts.exists_longestCut
  cases ends with
  | done =>
      have scanned := cuts.scan_eq_ok
      rw [List.append_nil] at whole
      refine ⟨⟨fun _ => ⟨_, whole, longest⟩, fun _ => ⟨_, scanned⟩⟩, ?_, ?_⟩
      · intro tokens pieces scanned' whole' longest'
        rw [scanned] at scanned'
        cases scanned'
        refine ⟨_, _, rfl, rfl, ?_⟩
        rw [content_tokens, (cutsOf whole' longest').1]
      · intro fault failed
        rw [scanned] at failed
        cases failed
  | @stuck first more obstacle blocked =>
      have failed := cuts.scan_eq_error
      refine ⟨⟨?_, ?_⟩, ?_, ?_⟩
      · rintro ⟨tokens, scanned⟩
        rw [failed] at scanned
        cases scanned
      · rintro ⟨pieces, whole', longest'⟩
        have impossible := (cutsOf whole' longest').2
        cases impossible
      · intro tokens pieces scanned
        rw [failed] at scanned
        cases scanned
      · intro fault failed'
        rw [failed] at failed'
        cases failed'
        exact ⟨_, _, whole, longest, List.cons_ne_nil _ _, stuck_iff.mpr ⟨obstacle, blocked⟩,
          blames_of_cut blocked _⟩

/-- The blanks around the text of a comment need not be ASCII: here they are a no-break space and
an em space.  The ideographic space between its letters belongs to it. -/
example :
    (scan (utf8 "/_\\\u00A0a\u3000b\u2003")).map (·.map Token.content) =
      .ok [(.comment, utf8 "a\u3000b"), (.eof, [])] := by
  decide +kernel

end Lexical

end TriforceScript
