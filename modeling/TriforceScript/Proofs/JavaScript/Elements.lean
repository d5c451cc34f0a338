import Mathlib.Data.List.Infix
import TriforceScript.Proofs.JavaScript.Fragment

/-!
# Elements of JavaScript

How a text falls into comments, strings and code.  A comment goes on to the end of its line, a
string to the first quote that no backslash acts on, and code is what can be neither of them.
A text falls into elements in one way at most.
-/

namespace TriforceScript

namespace JavaScript

/-! ## Lines -/

/-- The line ends besides the line feed: the carriage return, U+2028 and U+2029.  The first byte of
the latter two starts a character wherever it stands, so these bytes are nothing else in any
text. -/
def otherLineEnds : List Bytes :=
  [utf8 "\r", utf8 "\u2028", utf8 "\u2029"]

def lineEnds : List Bytes :=
  utf8 "\n" :: otherLineEnds

/-- A text in which no line ends. -/
def IsLine (text : Bytes) : Prop :=
  ∀ lineEnd ∈ lineEnds, ¬ lineEnd <:+: text

instance : DecidablePred IsLine := fun text =>
  inferInstanceAs (Decidable (∀ lineEnd ∈ lineEnds, ¬ lineEnd <:+: text))

/-- What may stand behind a whole line. -/
def EndsLine (behind : Bytes) : Prop :=
  behind = [] ∨ ∃ lineEnd ∈ lineEnds, lineEnd <+: behind

theorem isLine_iff {text : Bytes} :
    IsLine text ↔ Bytes.lineFeed ∉ text ∧ ∀ lineEnd ∈ otherLineEnds, ¬ lineEnd <:+: text := by
  have spelled : utf8 "\n" = [Bytes.lineFeed] := rfl
  rw [IsLine, lineEnds, List.forall_mem_cons, spelled, List.singleton_infix_iff]

theorem isLine_space_cons_iff {text : Bytes} : IsLine (Bytes.space :: text) ↔ IsLine text := by
  have starts : ∀ lineEnd ∈ lineEnds, lineEnd ≠ [] ∧ lineEnd.head? ≠ some Bytes.space := by
    decide +kernel
  refine forall₂_congr fun lineEnd isLineEnd => not_congr ?_
  obtain ⟨nonempty, notSpace⟩ := starts lineEnd isLineEnd
  obtain ⟨first, rest, rfl⟩ := List.exists_cons_of_ne_nil nonempty
  rw [List.infix_cons_iff, List.cons_prefix_cons]
  exact or_iff_right fun isSpace => notSpace (congrArg some isSpace.1)

private theorem endsLine_lineFeed (behind : Bytes) : EndsLine (Bytes.lineFeed :: behind) :=
  .inr ⟨utf8 "\n", List.mem_cons_self, ⟨behind, rfl⟩⟩

/-- No line end starts within another one. -/
private theorem EndsLine.not_prefix_tail {rest tail : Bytes} (ends : EndsLine rest) {byte : UInt8}
    {others : Bytes} (isLineEnd : byte :: others ++ tail ∈ lineEnds) (nonempty : tail ≠ []) :
    ¬ tail <+: rest := by
  have apart : ∀ lineEnd ∈ lineEnds, ∀ inner ∈ lineEnd.tail, ∀ other ∈ lineEnds,
      other.head? ≠ some inner ∧ other ≠ [] := by
    decide +kernel
  obtain ⟨first, later, rfl⟩ := List.exists_cons_of_ne_nil nonempty
  have inner : first ∈ (byte :: others ++ first :: later).tail :=
    List.mem_append_right others List.mem_cons_self
  rintro ⟨behind, rfl⟩
  rcases ends with isEmpty | ⟨other, isOther, ⟨more, starts⟩⟩
  · cases isEmpty
  · obtain ⟨differs, otherNonempty⟩ := apart _ isLineEnd first inner other isOther
    obtain ⟨head, rest, rfl⟩ := List.exists_cons_of_ne_nil otherNonempty
    exact differs (congrArg some (List.cons.inj starts).1)

/-- No line goes on where one has ended. -/
private theorem eq_nil_of_isLine {line more rest : Bytes} (isLine : IsLine (line ++ more))
    (ends : EndsLine (more ++ rest)) (endsRest : EndsLine rest) : more = [] := by
  by_contra nonempty
  rcases ends with isEmpty | ⟨lineEnd, isLineEnd, starts⟩
  · exact nonempty (List.append_eq_nil_iff.mp isEmpty).1
  by_cases fits : lineEnd.length ≤ more.length
  · have inMore : lineEnd <+: more :=
      List.prefix_of_prefix_length_le starts (List.prefix_append more rest) fits
    exact isLine lineEnd isLineEnd (inMore.isInfix.trans (List.suffix_append line more).isInfix)
  · -- A line end that reaches beyond `more` would go on where `rest` starts another one.
    have longer : more <+: lineEnd :=
      List.prefix_of_prefix_length_le (List.prefix_append more rest) starts (by omega)
    obtain ⟨tail, rfl⟩ := longer
    have tailNonempty : tail ≠ [] := by
      rintro rfl
      simp at fits
    obtain ⟨byte, others, rfl⟩ := List.exists_cons_of_ne_nil nonempty
    exact endsRest.not_prefix_tail isLineEnd tailNonempty
      ((List.prefix_append_right_inj (byte :: others)).mp starts)

theorem line_unique {line line' rest rest' : Bytes} (isLine : IsLine line) (isLine' : IsLine line')
    (ends : EndsLine rest) (ends' : EndsLine rest') (same : line ++ rest = line' ++ rest') :
    line = line' ∧ rest = rest' := by
  rcases List.append_eq_append_iff.mp same with ⟨more, rfl, rfl⟩ | ⟨more, rfl, rfl⟩
  · rw [eq_nil_of_isLine isLine' ends ends']
    exact ⟨(List.append_nil line).symm, rfl⟩
  · rw [eq_nil_of_isLine isLine ends' ends]
    exact ⟨List.append_nil line', rfl⟩

/-! ## Strings -/

abbrev backslash : UInt8 := 0x5C

/-- What may stand between the quotes of a string.  A backslash acts on the byte behind it, which
may then be a quote, but a line may not end, not even behind a backslash. -/
inductive IsBody : Bytes → Prop
  | nil : IsBody []
  | plain {byte : UInt8} {rest : Bytes} :
      byte ∉ [Bytes.quote, backslash, Bytes.lineFeed, Bytes.carriageReturn] →
      IsBody rest → IsBody (byte :: rest)
  | escape {byte : UInt8} {rest : Bytes} :
      byte ∉ [Bytes.lineFeed, Bytes.carriageReturn] →
      IsBody rest → IsBody (backslash :: byte :: rest)

/-- The number of backslashes that a text ends with. -/
def backslashesAtEnd (text : Bytes) : Nat :=
  (text.rtakeWhile (· == backslash)).length

theorem backslashesAtEnd_append (front rest : Bytes) :
    backslashesAtEnd (front ++ rest) =
      backslashesAtEnd rest +
        if backslashesAtEnd rest = rest.length then backslashesAtEnd front else 0 := by
  simp only [backslashesAtEnd, List.rtakeWhile, List.reverse_append, List.takeWhile_append,
    List.length_reverse]
  split
  · rename_i whole
    rw [List.length_append, List.length_reverse, whole]
  · rfl

theorem backslashesAtEnd_cons {byte : UInt8} (other : byte ≠ backslash) (rest : Bytes) :
    backslashesAtEnd (byte :: rest) = backslashesAtEnd rest := by
  have alone : backslashesAtEnd [byte] = 0 := by
    simp [backslashesAtEnd, List.rtakeWhile, other]
  have counted := backslashesAtEnd_append [byte] rest
  rwa [alone, ite_self] at counted

/-- A backslash and the byte it acts on leave it open whether the last backslash acts on
anything. -/
private theorem two_dvd_backslashesAtEnd_escape (byte : UInt8) (rest : Bytes) :
    2 ∣ backslashesAtEnd (backslash :: byte :: rest) ↔ 2 ∣ backslashesAtEnd rest := by
  have even : 2 ∣ backslashesAtEnd [backslash, byte] := by
    by_cases same : byte = backslash
    · rw [same]
      decide
    · simp [backslashesAtEnd, List.rtakeWhile, same]
  have counted := backslashesAtEnd_append [backslash, byte] rest
  rw [List.cons_append, List.singleton_append] at counted
  rw [counted]
  split
  · exact (Nat.dvd_add_iff_left even).symm
  · rfl

theorem IsBody.even_backslashesAtEnd {body : Bytes} (isBody : IsBody body) :
    2 ∣ backslashesAtEnd body := by
  induction isBody with
  | nil => decide
  | plain isPlain _ inductionHypothesis =>
      simp only [List.mem_cons, not_or] at isPlain
      rwa [backslashesAtEnd_cons isPlain.2.1]
  | escape _ _ inductionHypothesis => rwa [two_dvd_backslashesAtEnd_escape]

private theorem IsBody.breaks_notMem {body : Bytes} (isBody : IsBody body) :
    ∀ byte ∈ body, byte ∉ [Bytes.lineFeed, Bytes.carriageReturn] := by
  induction isBody with
  | nil =>
      intro byte member
      cases member
  | plain isPlain _ inductionHypothesis =>
      simp only [List.mem_cons, not_or] at isPlain
      rw [List.forall_mem_cons]
      exact ⟨by simp [isPlain], inductionHypothesis⟩
  | escape isKept _ inductionHypothesis =>
      rw [List.forall_mem_cons, List.forall_mem_cons]
      exact ⟨by decide, isKept, inductionHypothesis⟩

private theorem isBody_of_even {value : Bytes} (noQuote : Bytes.quote ∉ value)
    (noBreak : ∀ byte ∈ value, byte ∉ [Bytes.lineFeed, Bytes.carriageReturn])
    (even : 2 ∣ backslashesAtEnd value) : IsBody value := by
  match value with
  | [] => exact .nil
  | byte :: rest =>
      rw [List.mem_cons, not_or] at noQuote
      rw [List.forall_mem_cons] at noBreak
      by_cases other : byte ≠ backslash
      · rw [backslashesAtEnd_cons other] at even
        have isPlain :
            byte ∉ [Bytes.quote, backslash, Bytes.lineFeed, Bytes.carriageReturn] := by
          rw [List.mem_cons, List.mem_cons, not_or, not_or]
          exact ⟨Ne.symm noQuote.1, other, noBreak.1⟩
        exact .plain isPlain (isBody_of_even noQuote.2 noBreak.2 even)
      · obtain rfl := not_not.mp other
        match rest with
        | [] =>
            have odd : ¬ 2 ∣ backslashesAtEnd [backslash] := by decide
            exact (odd even).elim
        | acted :: later =>
            rw [two_dvd_backslashesAtEnd_escape] at even
            have noQuoteLater := List.not_mem_of_not_mem_cons noQuote.2
            obtain ⟨isKept, noBreakLater⟩ := List.forall_mem_cons.mp noBreak.2
            exact .escape isKept (isBody_of_even noQuoteLater noBreakLater even)

/-- Where a text without quotes may stand between two of them. -/
theorem isBody_iff {value : Bytes} (noQuote : Bytes.quote ∉ value) :
    IsBody value ↔
      (∀ byte ∈ value, byte ∉ [Bytes.lineFeed, Bytes.carriageReturn]) ∧
      2 ∣ backslashesAtEnd value := by
  constructor
  · intro isBody
    exact ⟨isBody.breaks_notMem, isBody.even_backslashesAtEnd⟩
  · rintro ⟨noBreak, even⟩
    exact isBody_of_even noQuote noBreak even

/-- A string ends at its first quote that no backslash acts on. -/
theorem IsBody.unique {body body' : Bytes} (isBody : IsBody body) (isBody' : IsBody body')
    {rest rest' : Bytes} (same : body ++ Bytes.quote :: rest = body' ++ Bytes.quote :: rest') :
    body = body' ∧ rest = rest' := by
  induction isBody generalizing body' with
  | nil =>
      cases isBody' with
      | nil =>
          cases same
          exact ⟨rfl, rfl⟩
      | plain isPlain _ =>
          cases same
          exact (isPlain List.mem_cons_self).elim
      | escape _ _ => cases same
  | @plain byte inner isPlain _ inductionHypothesis =>
      cases isBody' with
      | nil =>
          cases same
          exact (isPlain List.mem_cons_self).elim
      | plain _ isInner' =>
          obtain ⟨rfl, sameInner⟩ := List.cons.inj same
          obtain ⟨rfl, rfl⟩ := inductionHypothesis isInner' sameInner
          exact ⟨rfl, rfl⟩
      | escape _ _ =>
          obtain ⟨rfl, -⟩ := List.cons.inj same
          exact (isPlain (by decide)).elim
  | @escape byte inner _ _ inductionHypothesis =>
      cases isBody' with
      | nil => cases same
      | plain isPlain _ =>
          obtain ⟨rfl, -⟩ := List.cons.inj same
          exact (isPlain (by decide)).elim
      | escape _ isInner' =>
          obtain ⟨rfl, sameInner⟩ := List.cons.inj (List.cons.inj same).2
          obtain ⟨rfl, rfl⟩ := inductionHypothesis isInner' sameInner
          exact ⟨rfl, rfl⟩

/-! ## Elements -/

inductive Element where
  | code (byte : UInt8)
  /-- What stands behind the slashes of a comment. -/
  | comment (line : Bytes)
  /-- What stands between the quotes of a string. -/
  | string (body : Bytes)
  deriving DecidableEq, Repr

/-- The bytes of names, blanks and punctuation that mean nothing but code. -/
def codeBytes : Bytes :=
  nameBytes ++ blanks ++ utf8 "()+,.;=\x7b\x7d"

/-- `FallsInto text elements` means that `text` is read as `elements` from left to right. -/
inductive FallsInto : Bytes → List Element → Prop
  | nil : FallsInto [] []
  | code {byte : UInt8} {rest : Bytes} {others : List Element} :
      byte ∈ codeBytes → FallsInto rest others → FallsInto (byte :: rest) (.code byte :: others)
  | comment {line rest : Bytes} {others : List Element} :
      IsLine line → EndsLine rest → FallsInto rest others →
      FallsInto (0x2F :: 0x2F :: (line ++ rest)) (.comment line :: others)
  | string {body rest : Bytes} {others : List Element} :
      IsBody body → FallsInto rest others →
      FallsInto (Bytes.quote :: (body ++ Bytes.quote :: rest)) (.string body :: others)

def Element.bytes : Element → Bytes
  | .code byte => [byte]
  | .comment line => utf8 "//" ++ line
  | .string body => Bytes.quote :: (body ++ [Bytes.quote])

/-- Nothing of a text is lost between its elements. -/
theorem FallsInto.flatMap_bytes {text : Bytes} {elements : List Element}
    (falls : FallsInto text elements) : elements.flatMap Element.bytes = text := by
  induction falls with
  | nil => rfl
  | code _ _ inductionHypothesis =>
      rw [List.flatMap_cons, inductionHypothesis]
      rfl
  | comment _ _ _ inductionHypothesis =>
      rw [List.flatMap_cons, inductionHypothesis]
      rfl
  | string _ _ inductionHypothesis =>
      rw [List.flatMap_cons, inductionHypothesis, Element.bytes, List.cons_append,
        List.append_assoc]
      rfl

/-- What an element has to be like, wherever it stands. -/
def Element.Sound : Element → Prop
  | .code byte => byte ∈ codeBytes
  | .comment line => IsLine line
  | .string body => IsBody body

theorem FallsInto.sound {text : Bytes} {elements : List Element} (falls : FallsInto text elements) :
    ∀ element ∈ elements, element.Sound := by
  induction falls with
  | nil =>
      intro element member
      cases member
  | code isCode _ inductionHypothesis =>
      exact List.forall_mem_cons.mpr ⟨isCode, inductionHypothesis⟩
  | comment isLine _ _ inductionHypothesis =>
      exact List.forall_mem_cons.mpr ⟨isLine, inductionHypothesis⟩
  | string isBody _ inductionHypothesis =>
      exact List.forall_mem_cons.mpr ⟨isBody, inductionHypothesis⟩

private theorem marks_notMem_codeBytes : 0x2F ∉ codeBytes ∧ Bytes.quote ∉ codeBytes := by
  decide +kernel

theorem FallsInto.unique {text : Bytes} {elements elements' : List Element}
    (falls : FallsInto text elements) (falls' : FallsInto text elements') :
    elements = elements' := by
  generalize same : text = text' at falls'
  -- The first byte tells which kind of element it is, and the element where it ends.
  induction falls generalizing text' elements' with
  | nil =>
      cases falls' with
      | nil => rfl
      | _ => cases same
  | @code byte rest others isCode _ inductionHypothesis =>
      cases falls' with
      | nil => cases same
      | code _ fallsRest =>
          obtain ⟨rfl, sameRest⟩ := List.cons.inj same
          rw [inductionHypothesis _ sameRest fallsRest]
      | comment _ _ _ =>
          obtain ⟨rfl, -⟩ := List.cons.inj same
          exact (marks_notMem_codeBytes.1 isCode).elim
      | string _ _ =>
          obtain ⟨rfl, -⟩ := List.cons.inj same
          exact (marks_notMem_codeBytes.2 isCode).elim
  | @comment line rest others isLine ends _ inductionHypothesis =>
      cases falls' with
      | nil => cases same
      | code isCode _ =>
          obtain ⟨rfl, -⟩ := List.cons.inj same
          exact (marks_notMem_codeBytes.1 isCode).elim
      | comment isLine' ends' fallsRest =>
          have sameLine := (List.cons.inj (List.cons.inj same).2).2
          obtain ⟨rfl, sameRest⟩ := line_unique isLine isLine' ends ends' sameLine
          rw [inductionHypothesis _ sameRest fallsRest]
      | string _ _ => cases same
  | @string body rest others isBody _ inductionHypothesis =>
      cases falls' with
      | nil => cases same
      | code isCode _ =>
          obtain ⟨rfl, -⟩ := List.cons.inj same
          exact (marks_notMem_codeBytes.2 isCode).elim
      | comment _ _ _ => cases same
      | string isBody' fallsRest =>
          obtain ⟨rfl, sameRest⟩ := isBody.unique isBody' (List.cons.inj same).2
          rw [inductionHypothesis _ sameRest fallsRest]

/-! ## Texts in front of others -/

/-- `Splits text elements` means that `text` is read as `elements`, whatever stands behind it. -/
def Splits (text : Bytes) (elements : List Element) : Prop :=
  ∀ rest others, FallsInto rest others → FallsInto (text ++ rest) (elements ++ others)

def code (text : Bytes) : List Element :=
  text.map .code

namespace Splits

theorem nil : Splits [] [] := by
  intro rest others falls
  exact falls

theorem append {first second : Bytes} {firstElements secondElements : List Element}
    (splitsFirst : Splits first firstElements) (splitsSecond : Splits second secondElements) :
    Splits (first ++ second) (firstElements ++ secondElements) := by
  intro rest others falls
  rw [List.append_assoc, List.append_assoc]
  exact splitsFirst _ _ (splitsSecond _ _ falls)

theorem flatMap {Item : Type} {text : Item → Bytes} {elements : Item → List Element}
    {items : List Item} (splits : ∀ item ∈ items, Splits (text item) (elements item)) :
    Splits (items.flatMap text) (items.flatMap elements) := by
  induction items with
  | nil => exact nil
  | cons item rest inductionHypothesis =>
      rw [List.forall_mem_cons] at splits
      rw [List.flatMap_cons, List.flatMap_cons]
      exact splits.1.append (inductionHypothesis splits.2)

theorem fallsInto {text : Bytes} {elements : List Element} (splits : Splits text elements) :
    FallsInto text elements := by
  have falls := splits [] [] .nil
  rwa [List.append_nil, List.append_nil] at falls

theorem code {text : Bytes} (areCode : ∀ byte ∈ text, byte ∈ codeBytes) :
    Splits text (code text) := by
  induction text with
  | nil => exact nil
  | cons byte later inductionHypothesis =>
      rw [List.forall_mem_cons] at areCode
      intro rest others falls
      exact .code areCode.1 (inductionHypothesis areCode.2 _ _ falls)

theorem string {body : Bytes} (isBody : IsBody body) :
    Splits (Bytes.quote :: (body ++ [Bytes.quote])) [.string body] := by
  intro rest others falls
  rw [List.cons_append, List.append_assoc]
  exact .string isBody falls

/-- A comment with the line feed that ends it. -/
theorem comment {line : Bytes} (isLine : IsLine line) :
    Splits (0x2F :: 0x2F :: (line ++ [Bytes.lineFeed])) [.comment line, .code Bytes.lineFeed] := by
  intro rest others falls
  have isCode : Bytes.lineFeed ∈ codeBytes :=
    List.mem_append_left _ (List.mem_append_right _ (by decide))
  rw [List.cons_append, List.cons_append, List.append_assoc]
  exact .comment isLine (endsLine_lineFeed rest) (.code isCode falls)

end Splits

end JavaScript

end TriforceScript
