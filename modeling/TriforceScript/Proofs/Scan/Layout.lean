import TriforceScript.Proofs.Reader.Erasure
import TriforceScript.Proofs.Scan.Longest

/-!
# Layouts of lexemes

Lexemes can be written with any blanks between them.  Wherever blanks keep them apart, the
text is cut into the same lexemes again, and the blanks leave no trace in the tokens.
-/

namespace TriforceScript

namespace Lexeme

open Lexical (IsWord marks)

/-- A run of blanks, which may be empty. -/
def IsRun (run : Bytes) : Prop :=
  ∀ byte ∈ run, byte ∈ utf8 " \t\r\n"

instance (run : Bytes) : Decidable (IsRun run) :=
  List.decidableBAll (· ∈ utf8 " \t\r\n") run

/-- `Lays lexemes text` means that `text` is made of `lexemes` with a run of blanks behind each.
Only behind the last one the run may be empty, and behind a comment it starts with a line feed. -/
inductive Lays : List Lexeme → Bytes → Prop
  | nil : Lays [] []
  | cons {lexeme : Lexeme} {rest : List Lexeme} {run text : Bytes} :
      IsRun run →
      (rest ≠ [] → run ≠ []) →
      (lexeme.cls = .comment → ∀ byte ∈ run.head?, byte = Bytes.lineFeed) →
      Lays rest text →
      Lays (lexeme :: rest) (lexeme.bytes ++ (run ++ text))

/-! ## Lexemes in front of blanks -/

/-- What follows keeps a lexeme apart. -/
def Apart (lexeme : Lexeme) (behind : Bytes) : Prop :=
  ∀ byte ∈ behind.head?,
    byte ∈ utf8 " \t\r\n" ∧ (lexeme.cls = .comment → byte = Bytes.lineFeed)

/-- A lexeme is cut off wherever it is kept apart. -/
def Whole (lexeme : Lexeme) : Prop :=
  ∃ first tail,
    lexeme.bytes = first :: tail ∧
    ∀ behind, lexeme.Apart behind → cut first (tail ++ behind) = .ok lexeme

theorem whole_word {word : Bytes} (isWord : IsWord word) : Whole ⟨.word, word⟩ := by
  have ⟨first, rest, shape, _, _⟩ := isWord
  subst shape
  refine ⟨first, rest, rfl, ?_⟩
  intro behind apart
  have stops : behind.takeWhile isWordByte = [] := by
    have noWord : ∀ byte ∈ utf8 " \t\r\n", ¬ isWordByte byte = true := by
      decide +kernel
    cases behind with
    | nil => rfl
    | cons byte others => exact List.takeWhile_cons_of_neg (noWord byte (apart byte rfl).1)
  rw [cut_word isWord, stops, List.append_nil]

theorem whole_string {value : Bytes} (noQuote : Bytes.quote ∉ value) :
    Whole ⟨.string, Bytes.quote :: value ++ [Bytes.quote]⟩ :=
  ⟨Bytes.quote, value ++ [Bytes.quote], rfl, fun behind _ => cut_string noQuote behind⟩

theorem whole_comment {line : Bytes} (noLineFeed : Bytes.lineFeed ∉ line) :
    Whole ⟨.comment, utf8 "/_\\" ++ line⟩ := by
  refine ⟨0x2F, 0x5F :: 0x5C :: line, rfl, ?_⟩
  intro behind apart
  apply cut_comment noLineFeed
  cases behind with
  | nil => exact .inl rfl
  | cons byte others => exact .inr (congrArg some ((apart byte rfl).2 rfl))

theorem whole_mark {spelling : Bytes} {kind : Token.Kind} (member : (spelling, kind) ∈ marks) :
    Whole ⟨.mark kind, spelling⟩ := by
  rcases mem_marks_iff.mp member with ⟨first, second, rfl, paired⟩ | ⟨first, rfl, single⟩
  · exact ⟨first, [second], rfl, fun behind _ => cut_pair paired behind⟩
  · refine ⟨first, [], rfl, ?_⟩
    intro behind apart
    apply cut_single single
    cases behind with
    | nil => rfl
    | cons byte others =>
        rw [List.nil_append, List.head?_cons, Option.bind_some, Option.eq_none_iff_forall_ne_some]
        intro longer paired
        have blank := (apart byte rfl).1
        have isPair := mem_of_lookup_eq_some paired
        simp only [List.mem_cons, Prod.mk.injEq, List.not_mem_nil, or_false] at isPair
        rcases isPair with ⟨⟨-, rfl⟩, -⟩ | ⟨⟨-, rfl⟩, -⟩ | ⟨⟨-, rfl⟩, -⟩ | ⟨⟨-, rfl⟩, -⟩
        all_goals exact absurd blank (by decide)

/-! ## Tokens without places -/

/-- The tokens that lexemes make, without their places. -/
def made (lexemes : List Lexeme) : List Token :=
  lexemes.filterMap fun lexeme => lexeme.token? .origin

theorem map_erase_tokens (position : Position) (lexemes : List Lexeme) :
    (tokens position lexemes).map Token.erase = made lexemes := by
  induction lexemes generalizing position with
  | nil =>
      rfl
  | cons lexeme rest inductionHypothesis =>
      rw [tokens, List.map_append, inductionHypothesis, made, made, List.filterMap_cons, token?,
        token?]
      cases lexeme.kind? <;> rfl

theorem map_erase_made (lexemes : List Lexeme) : (made lexemes).map Token.erase = made lexemes := by
  rw [← map_erase_tokens .start lexemes, List.map_map]
  rfl

theorem made_append (first second : List Lexeme) : made (first ++ second) = made first ++ made second :=
  List.filterMap_append

/-! ## Cutting a layout -/

theorem exists_cuts_run {run text : Bytes} (isRun : IsRun run) {lexemes : List Lexeme}
    (cuts : Cuts text lexemes none) :
    ∃ all, Cuts (run ++ text) all none ∧ made all = made lexemes := by
  induction run with
  | nil => exact ⟨lexemes, cuts, rfl⟩
  | cons byte others inductionHypothesis =>
      obtain ⟨isBlank, othersBlank⟩ := List.forall_mem_cons.mp isRun
      obtain ⟨all, cutsOthers, sameTokens⟩ := inductionHypothesis othersBlank
      have cutsRun : Cuts ([byte] ++ (others ++ text)) (⟨.blank, [byte]⟩ :: all) none :=
        .lexeme (cut_blank isBlank (others ++ text)) rfl cutsOthers
      exact ⟨_, cutsRun, sameTokens⟩

theorem Lays.exists_cuts {lexemes : List Lexeme} {text : Bytes} (lays : Lays lexemes text)
    (whole : ∀ lexeme ∈ lexemes, lexeme.Whole) :
    ∃ all, Cuts text all none ∧ made all = made lexemes := by
  induction lays with
  | nil => exact ⟨[], .done, rfl⟩
  | @cons lexeme rest run text isRun nonempty lineFeed lays inductionHypothesis =>
      rw [List.forall_mem_cons] at whole
      obtain ⟨others, cutsOthers, sameOthers⟩ := inductionHypothesis whole.2
      obtain ⟨all, cutsAll, sameAll⟩ := exists_cuts_run isRun cutsOthers
      obtain ⟨first, tail, bytes, cutOff⟩ := whole.1
      have apart : lexeme.Apart (run ++ text) := by
        intro byte isHead
        cases run with
        | nil =>
            by_cases isLast : rest = []
            · subst isLast
              cases lays
              cases isHead
            · exact (nonempty isLast rfl).elim
        | cons blank blanks =>
            cases isHead
            exact ⟨isRun byte List.mem_cons_self, fun isComment => lineFeed isComment byte rfl⟩
      refine ⟨lexeme :: all, ?_, ?_⟩
      · rw [bytes]
        exact .lexeme (cutOff _ apart) bytes cutsAll
      · have both := made_append [lexeme] all
        rw [sameAll, sameOthers, ← made_append] at both
        exact both

end Lexeme

end TriforceScript
