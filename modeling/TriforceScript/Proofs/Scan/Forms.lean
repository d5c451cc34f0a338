import TriforceScript.Proofs.Scan.Tokens
import TriforceScript.Proofs.Text.Glyphs

/-!
# Lexemes by their bytes

What a lexeme is and which token it makes, said of its bytes alone, without a word on how
lexemes are found.  Whatever is cut off the front of a text is a lexeme in this sense.
-/

namespace TriforceScript

/-- What a token is, apart from its place. -/
def Token.content (token : Token) : Token.Kind × Bytes :=
  (token.kind, token.text)

namespace Lexical

def digits : Bytes :=
  utf8 "0123456789"

def letters : Bytes :=
  utf8 "ABCDEFGHIJKLMNOPQRSTUVWXYZabcdefghijklmnopqrstuvwxyz_"

/-- The operators and brackets, each with its category. -/
def marks : List (Bytes × Token.Kind) :=
  [(utf8 "(", .leftParen), (utf8 ")", .rightParen), (utf8 "\x7b", .leftBrace),
    (utf8 "\x7d", .rightBrace), (utf8 "[", .typeOpen), (utf8 "]", .typeClose), (utf8 ",", .comma),
    (utf8 ";", .semicolon), (utf8 "::", .typeMark), (utf8 "==", .equalsEquals),
    (utf8 "=>", .doubleArrow), (utf8 "=", .equals), (utf8 "->", .arrow)]

def IsNumeral (text : Bytes) : Prop :=
  text ≠ [] ∧ ∀ byte ∈ text, byte ∈ digits

/-- A letter or underscore, then letters, underscores and digits. -/
def IsWord (text : Bytes) : Prop :=
  ∃ first rest, text = first :: rest ∧ first ∈ letters ∧ ∀ byte ∈ rest, byte ∈ letters ++ digits

/-- A word that has no meaning of its own. -/
def IsName (text : Bytes) : Prop :=
  IsWord text ∧ text ≠ utf8 "if" ∧ text ≠ utf8 "write"

/-- A piece of a text, and the category and text of the token it makes, if it makes one. -/
structure Piece where
  bytes : Bytes
  content : Option (Token.Kind × Bytes)

/-- `Form behind piece` means that `piece` is a lexeme where `behind` follows it. -/
inductive Form (behind : Bytes) : Piece → Prop
  | mark {spelling : Bytes} {kind : Token.Kind} :
      (spelling, kind) ∈ marks → Form behind ⟨spelling, some (kind, spelling)⟩
  | string {quoted : Bytes} :
      Bytes.quote ∉ quoted →
      Form behind ⟨Bytes.quote :: quoted ++ [Bytes.quote], some (.string, quoted)⟩
  /-- A comment goes on to the end of its line. -/
  | comment {line : Bytes} :
      Bytes.lineFeed ∉ line →
      behind = [] ∨ behind.head? = some Bytes.lineFeed →
      Form behind ⟨utf8 "/_\\" ++ line, some (.comment, line.trim)⟩
  | whole {number : Bytes} : IsNumeral number → Form behind ⟨number, some (.number, number)⟩
  | fraction {number decimals : Bytes} :
      IsNumeral number →
      IsNumeral decimals →
      Form behind
        ⟨number ++ utf8 "." ++ decimals, some (.number, number ++ utf8 "." ++ decimals)⟩
  | name {word : Bytes} : IsName word → Form behind ⟨word, some (.identifier, word)⟩
  | ifWord : Form behind ⟨utf8 "if", some (.ifWord, utf8 "if")⟩
  | writeWord : Form behind ⟨utf8 "write", some (.writeWord, utf8 "write")⟩
  | blank {byte : UInt8} : byte ∈ utf8 " \t\r\n" → Form behind ⟨[byte], none⟩
  | colon : behind.head? ≠ some 0x3A → Form behind ⟨utf8 ":", none⟩
  | minus : behind.head? ≠ some 0x3E → Form behind ⟨utf8 "-", none⟩
  | slash : behind.head? ≠ some 0x5F → Form behind ⟨utf8 "/", none⟩
  | slashUnderscore : behind.head? ≠ some 0x5C → Form behind ⟨utf8 "/_", none⟩

end Lexical

namespace Lexeme

open Lexical

/-! ## Classes of bytes -/

private theorem mem_consecutive {start count : Nat} (bound : start + count ≤ 256) (byte : UInt8) :
    byte ∈ (List.range' start count).map UInt8.ofNat ↔
      start ≤ byte.toNat ∧ byte.toNat < start + count := by
  rw [List.mem_map]
  constructor
  · rintro ⟨number, member, rfl⟩
    have range := List.mem_range'_1.mp member
    have small : number < 256 := by
      omega
    rwa [UInt8.toNat_ofNat_of_lt' small]
  · intro range
    exact ⟨byte.toNat, List.mem_range'_1.mpr range, UInt8.ofNat_toNat⟩

theorem isDigit_iff (byte : UInt8) : isDigit byte = true ↔ byte ∈ digits := by
  have spelled : digits = (List.range' 0x30 10).map UInt8.ofNat := by
    decide +kernel
  rw [spelled, mem_consecutive (by decide)]
  simp only [isDigit, Bool.and_eq_true, decide_eq_true_eq, UInt8.le_iff_toNat_le, UInt8.reduceToNat]
  omega

theorem isWordStart_iff (byte : UInt8) : isWordStart byte = true ↔ byte ∈ letters := by
  have spelled :
      letters =
        (List.range' 0x41 26).map UInt8.ofNat ++ (List.range' 0x61 26).map UInt8.ofNat ++
          [0x5F] := by
    decide +kernel
  rw [spelled, List.mem_append, List.mem_append, mem_consecutive (by decide),
    mem_consecutive (by decide), List.mem_singleton]
  simp only [isWordStart, Bool.or_eq_true, Bool.and_eq_true, decide_eq_true_eq, beq_iff_eq,
    UInt8.le_iff_toNat_le, ← UInt8.toNat_inj, UInt8.reduceToNat]
  omega

theorem isWordByte_iff (byte : UInt8) : isWordByte byte = true ↔ byte ∈ letters ++ digits := by
  rw [isWordByte, Bool.or_eq_true, isWordStart_iff, isDigit_iff, List.mem_append]

theorem isIdle_iff (byte : UInt8) :
    isIdle byte = true ↔ byte ∈ utf8 " \t\r\n" ∨ byte = 0x3A ∨ byte = 0x2D := by
  have spelled : utf8 " \t\r\n" = [0x20, 0x09, 0x0D, 0x0A] := rfl
  rw [spelled]
  simp [isIdle, Bytes.space, Bytes.carriageReturn, Bytes.lineFeed, or_assoc]

theorem mem_marks_iff {spelling : Bytes} {kind : Token.Kind} :
    (spelling, kind) ∈ marks ↔
      (∃ first second, spelling = [first, second] ∧ pair? first second = some kind) ∨
        ∃ first, spelling = [first] ∧ single? first = some kind := by
  constructor
  · intro member
    simp only [marks, List.mem_cons, Prod.mk.injEq, List.not_mem_nil, or_false] at member
    rcases member with
      ⟨rfl, rfl⟩ | ⟨rfl, rfl⟩ | ⟨rfl, rfl⟩ | ⟨rfl, rfl⟩ | ⟨rfl, rfl⟩ | ⟨rfl, rfl⟩ | ⟨rfl, rfl⟩ |
        ⟨rfl, rfl⟩ | ⟨rfl, rfl⟩ | ⟨rfl, rfl⟩ | ⟨rfl, rfl⟩ | ⟨rfl, rfl⟩ | ⟨rfl, rfl⟩
    any_goals exact .inr ⟨_, rfl, rfl⟩
    all_goals exact .inl ⟨_, _, rfl, rfl⟩
  · rintro (⟨first, second, rfl, paired⟩ | ⟨first, rfl, single⟩)
    · have member := mem_of_lookup_eq_some paired
      simp only [List.mem_cons, Prod.mk.injEq, List.not_mem_nil, or_false] at member
      rcases member with
        ⟨⟨rfl, rfl⟩, rfl⟩ | ⟨⟨rfl, rfl⟩, rfl⟩ | ⟨⟨rfl, rfl⟩, rfl⟩ | ⟨⟨rfl, rfl⟩, rfl⟩ <;> decide
    · have member := mem_of_lookup_eq_some single
      simp only [List.mem_cons, Prod.mk.injEq, List.not_mem_nil, or_false] at member
      rcases member with
        ⟨rfl, rfl⟩ | ⟨rfl, rfl⟩ | ⟨rfl, rfl⟩ | ⟨rfl, rfl⟩ | ⟨rfl, rfl⟩ | ⟨rfl, rfl⟩ | ⟨rfl, rfl⟩ |
          ⟨rfl, rfl⟩ | ⟨rfl, rfl⟩ <;> decide

/-! ## What is cut off is a lexeme -/

/-- The piece that a lexeme is, and the token it makes. -/
def piece (lexeme : Lexeme) : Piece :=
  ⟨lexeme.bytes, lexeme.kind?.map fun kind => (kind, lexeme.text)⟩

theorem cut_pair {first second : UInt8} {kind : Token.Kind}
    (paired : pair? first second = some kind) (rest : Bytes) :
    cut first (second :: rest) = .ok ⟨.mark kind, [first, second]⟩ := by
  unfold cut
  rw [List.head?_cons, Option.bind_some, paired]
  rfl

theorem cut_single {first : UInt8} {kind : Token.Kind} {rest : Bytes}
    (single : single? first = some kind) (unpaired : rest.head?.bind (pair? first) = none) :
    cut first rest = .ok ⟨.mark kind, [first]⟩ := by
  unfold cut
  rw [unpaired, single]

/-- What follows the part of a text that passes a test, if anything does, fails it. -/
private theorem dropWhile_eq_nil_or (test : UInt8 → Bool) (text : Bytes) :
    text.dropWhile test = [] ∨ ∃ byte behind, text.dropWhile test = byte :: behind ∧ test byte = false := by
  have stops := List.head?_dropWhile_not test text
  cases rest : text.dropWhile test with
  | nil => exact .inl rfl
  | cons byte behind =>
      rw [rest] at stops
      exact .inr ⟨byte, behind, rfl, stops⟩

private theorem form_comment (more : Bytes) :
    Form (more.dropWhile (· != Bytes.lineFeed))
      (piece ⟨.comment,
        0x2F :: 0x5F :: 0x5C :: more.takeWhile (· != Bytes.lineFeed)⟩) := by
  have noLineFeed : Bytes.lineFeed ∉ more.takeWhile (· != Bytes.lineFeed) := by
    intro member
    have passes := List.mem_takeWhile_imp member
    simp at passes
  refine .comment noLineFeed ?_
  rcases dropWhile_eq_nil_or (· != Bytes.lineFeed) more with ended | ⟨byte, behind, shape, isLineFeed⟩
  · exact .inl ended
  · rw [shape]
    simp only [bne_eq_false_iff_eq] at isLineFeed
    exact .inr (congrArg some isLineFeed)

private theorem form_slash {tail behind : Bytes}
    (bytes : (cutSlash (tail ++ behind)).bytes = 0x2F :: tail) :
    Form behind (cutSlash (tail ++ behind)).piece := by
  unfold cutSlash at bytes ⊢
  by_cases marker : (tail ++ behind).take 2 = [0x5F, 0x5C]
  · rw [if_pos marker] at bytes ⊢
    generalize read : (tail ++ behind).drop 2 = more at bytes ⊢
    have shape : tail ++ behind = 0x5F :: 0x5C :: more := by
      rw [← List.take_append_drop 2 (tail ++ behind), marker, read]
      rfl
    have tailShape : 0x5F :: 0x5C :: more.takeWhile (· != Bytes.lineFeed) = tail :=
      (List.cons.inj bytes).2
    have behindShape : behind = more.dropWhile (· != Bytes.lineFeed) := by
      have split : more.takeWhile (· != Bytes.lineFeed) ++ behind = more := by
        rw [← tailShape] at shape
        exact (List.cons.inj (List.cons.inj shape).2).2
      exact List.append_cancel_left (split.trans List.takeWhile_append_dropWhile.symm)
    rw [behindShape]
    exact form_comment more
  rw [if_neg marker] at bytes ⊢
  by_cases underscore : (tail ++ behind).take 1 = [0x5F]
  · rw [if_pos underscore] at bytes ⊢
    cases bytes
    refine .slashUnderscore fun followed => marker ?_
    obtain ⟨more, rfl⟩ := List.head?_eq_some_iff.mp followed
    rfl
  · rw [if_neg underscore] at bytes ⊢
    cases bytes
    refine .slash fun followed => underscore ?_
    obtain ⟨more, rfl⟩ := List.head?_eq_some_iff.mp followed
    rfl

private theorem isNumeral_takeWhile {first : UInt8} (digit : isDigit first = true) (rest : Bytes) :
    IsNumeral (first :: rest.takeWhile isDigit) := by
  refine ⟨List.cons_ne_nil _ _, ?_⟩
  intro byte member
  rcases List.mem_cons.mp member with rfl | inRest
  · exact (isDigit_iff byte).mp digit
  · exact (isDigit_iff byte).mp (List.mem_takeWhile_imp inRest)

/-- The fraction that a text starts with is none, or a point and decimals. -/
private theorem fraction_cases (text : Bytes) :
    fraction text = [] ∨ ∃ decimals, fraction text = utf8 "." ++ decimals ∧ IsNumeral decimals := by
  unfold fraction
  split
  · rename_i point digit rest
    split
    · rename_i starts
      obtain ⟨rfl, isDigit⟩ := starts
      exact .inr ⟨_, rfl, isNumeral_takeWhile isDigit rest⟩
    · exact .inl rfl
  · exact .inl rfl

private theorem form_number {first : UInt8} (digit : isDigit first = true) (rest behind : Bytes) :
    Form behind (cutNumber (first :: rest)).piece := by
  have numeral := isNumeral_takeWhile digit rest
  have number : (first :: rest).takeWhile isDigit = first :: rest.takeWhile isDigit :=
    List.takeWhile_cons_of_pos digit
  unfold cutNumber
  rw [number]
  rcases fraction_cases ((first :: rest).dropWhile isDigit) with none | ⟨decimals, some, isNumeral⟩
  · rw [none, List.append_nil]
    exact .whole numeral
  · rw [some, ← List.append_assoc]
    exact .fraction numeral isNumeral

private theorem form_word {word behind : Bytes} (isWord : IsWord word) :
    Form behind (piece ⟨.word, word⟩) := by
  by_cases isIf : word = utf8 "if"
  · subst isIf
    exact .ifWord
  by_cases isWrite : word = utf8 "write"
  · subst isWrite
    exact .writeWord
  have kind : Token.Kind.ofWord word = .identifier := by
    rw [Token.Kind.ofWord, if_neg isIf, if_neg isWrite]
  have made : piece ⟨.word, word⟩ = ⟨word, some (.identifier, word)⟩ := by
    simp [piece, kind?, text, kind]
  rw [made]
  exact .name ⟨isWord, isIf, isWrite⟩

private theorem form_idle {first : UInt8} {behind : Bytes} (idle : isIdle first = true)
    (cutOff : cut first behind = .ok ⟨.blank, [first]⟩) :
    Form behind (piece ⟨.blank, [first]⟩) := by
  rcases (isIdle_iff first).mp idle with isBlank | rfl | rfl
  · exact .blank isBlank
  · refine .colon fun followed => ?_
    obtain ⟨more, rfl⟩ := List.head?_eq_some_iff.mp followed
    have paired : pair? 0x3A 0x3A = some .typeMark := rfl
    rw [cut_pair paired] at cutOff
    cases cutOff
  · refine .minus fun followed => ?_
    obtain ⟨more, rfl⟩ := List.head?_eq_some_iff.mp followed
    have paired : pair? 0x2D 0x3E = some .arrow := rfl
    rw [cut_pair paired] at cutOff
    cases cutOff

/-- What is cut off the front of a text is a lexeme there. -/
theorem form_of_cut {first : UInt8} {tail behind : Bytes} {lexeme : Lexeme}
    (cutOff : cut first (tail ++ behind) = .ok lexeme) (bytes : lexeme.bytes = first :: tail) :
    Form behind lexeme.piece := by
  rcases cut_eq_ok cutOff with
    ⟨second, more, kind, shape, paired, rfl⟩ | ⟨kind, single, rfl⟩ | ⟨idle, rfl⟩ | ⟨rfl, rfl⟩ |
      ⟨rfl, quoted, more, noQuote, shape, rfl⟩ | ⟨digit, rfl⟩ | ⟨wordStart, rfl⟩
  · exact .mark (mem_marks_iff.mpr (.inl ⟨first, second, rfl, paired⟩))
  · exact .mark (mem_marks_iff.mpr (.inr ⟨first, rfl, single⟩))
  · cases bytes
    exact form_idle idle cutOff
  · exact form_slash bytes
  · have made :
        piece ⟨.string, Bytes.quote :: quoted ++ [Bytes.quote]⟩ =
          ⟨Bytes.quote :: quoted ++ [Bytes.quote], some (.string, quoted)⟩ := by
      simp [piece, kind?, text]
    rw [made]
    exact .string noQuote
  · exact form_number digit (tail ++ behind) behind
  · have isWord : IsWord (first :: (tail ++ behind).takeWhile isWordByte) := by
      refine ⟨first, _, rfl, (isWordStart_iff first).mp wordStart, ?_⟩
      intro byte member
      exact (isWordByte_iff byte).mp (List.mem_takeWhile_imp member)
    exact form_word isWord

end Lexeme

end TriforceScript
