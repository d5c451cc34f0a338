import TriforceScript.Command.Compile
import TriforceScript.Proofs.Text.Plain
import TriforceScript.Text.Template

/-!
# Filled templates

A template that is filled with values is plain if it and the values are, whatever its directives
ask for, so that its colour can be taken off again.  Text outside of directives stands as it is,
and a percent sign with a letter stands for the next value.  The lines that a job tells about a
compilation are filled templates.
-/

namespace TriforceScript

/-! ## Values -/

private theorem Bytes.plain_intercalate {between : Bytes} {parts : List Bytes}
    (plain : between.Plain)
    (plainParts : ∀ part ∈ parts, part.Plain) : Plain (List.intercalate between parts) := by
  induction parts with
  | nil =>
      exact plain_nil
  | cons part rest inductionHypothesis =>
      obtain ⟨plainPart, plainRest⟩ := List.forall_mem_cons.mp plainParts
      cases rest with
      | nil =>
          rwa [List.intercalate_singleton]
      | cons next others =>
          rw [List.intercalate_cons_cons]
          simp only [plain_append]
          exact ⟨⟨plainPart, plain⟩, inductionHypothesis plainRest⟩

namespace Value

/-- Whether a value has no escape byte in any form: a number must not be the code of one. -/
def Plain : Value → Prop
  | .text value => value.Plain
  | .number value => value ≠ Colour.escape.toNat
  | .truth _ => True
  | .nothing => True

private theorem plain_plain {value : Value} (isPlain : value.Plain) : value.plain.Plain := by
  cases value with
  | text value => exact isPlain
  | number value => exact Bytes.plain_ofInt value
  | truth value => cases value <;> decide
  | nothing => decide

private theorem plain_typeName (value : Value) : value.typeName.Plain := by
  cases value with
  | text | number | truth => simp +decide [typeName]
  | nothing => decide

private theorem plain_remarked (value : Value) {written : Bytes} (plain : written.Plain) :
    (value.remarked written).Plain := by
  have named := value.plain_typeName
  unfold remarked
  split
  · exact named
  · simp +decide [named, plain]

private theorem plain_beside {values : List Value} (plain : ∀ value ∈ values, value.Plain) :
    Bytes.Plain (beside values) := by
  fun_induction beside values with
  | case1 =>
      exact Bytes.plain_nil
  | case2 value =>
      exact plain_plain (plain value List.mem_cons_self)
  | case3 first second rest blank inductionHypothesis =>
      obtain ⟨plainFirst, plainRest⟩ := List.forall_mem_cons.mp plain
      have plainBlank : Bytes.Plain blank := by
        by_cases isText : (first.isText || second.isText) = true
        · simp [blank, isText]
        · simp +decide [blank, isText]
      simp only [Bytes.plain_append]
      exact ⟨plain_plain plainFirst, plainBlank, inductionHypothesis plainRest⟩

private theorem plain_spaced {values : List Value} (plain : ∀ value ∈ values, value.Plain) :
    Bytes.Plain (spaced values) := by
  apply Bytes.plain_intercalate (by decide)
  intro part member
  obtain ⟨value, inValues, rfl⟩ := List.mem_map.mp member
  exact plain_plain (plain value inValues)

end Value

/-! ## Layouts -/

namespace Layout

variable (layout : Layout)

private theorem plain_filling (count : Nat) : (layout.filling count).Plain := by
  apply Bytes.plain_replicate
  split
  · decide
  · decide

private theorem plain_pad {text : Bytes} (plain : text.Plain) : (layout.pad text).Plain := by
  have filling := layout.plain_filling
  unfold pad
  dsimp only
  split
  · exact Bytes.plain_append.mpr ⟨plain, filling _⟩
  · exact Bytes.plain_append.mpr ⟨filling _, plain⟩

private theorem plain_cut {text : Bytes} (plain : text.Plain) : (layout.cut text).Plain := by
  unfold cut
  split
  · exact plain
  · exact plain.ofGlyphs (List.take_subset _ _)

private theorem plain_sign (number : Int) : (layout.sign number).Plain := by
  unfold sign
  split
  · decide
  split
  · decide
  split
  · decide
  · decide

private theorem plain_digits {base : Nat} (several : 1 < base) (most : base ≤ 16) (capital : Bool)
    (number : Nat) : (digits base capital number).Plain := by
  have all :
      ∀ value < 16, ∀ capital : Bool,
        Bytes.Plain
          (String.utf8EncodeChar
            (if capital then (Nat.digitChar value).toUpper else Nat.digitChar value)) := by
    decide +kernel
  rw [digits, Bytes.plain_flatMap]
  intro digit member
  obtain ⟨value, small, rfl⟩ := Bytes.exists_digitChar_of_mem_toDigits several member
  exact all value (by omega) capital

private theorem plain_baseMark (base : Nat) (capital : Bool) (digits : Bytes) :
    (baseMark base capital digits).Plain := by
  unfold baseMark
  split
  · decide
  split
  · split <;> decide
  split
  · split <;> decide
  · decide

private theorem plain_number {base : Nat} (several : 1 < base) (most : base ≤ 16) (capital : Bool)
    {mark : Bytes} (plainMark : mark.Plain) (value : Int) :
    (layout.number base capital mark value).Plain := by
  unfold number
  split
  · exact plain_filling _ _
  · apply plain_pad
    have plainDigits := (plain_digits several most capital value.natAbs).zeroFill
    have plainForm (text : Bytes) :
        Bytes.Plain (if layout.alternate then baseMark base capital text else []) := by
      split
      · exact plain_baseMark base capital text
      · exact Bytes.plain_nil
    simp only [Bytes.plain_append]
    exact ⟨layout.plain_sign value, plainMark, plainForm _, plainDigits _⟩

/-! ## Characters and texts -/

private theorem val_charOfCode_ne {code : Int} (other : code ≠ Colour.escape.toNat) :
    (charOfCode code).val.toNat ≠ Colour.escape.toNat := by
  unfold charOfCode
  split
  · rename_i isCode
    have value : (Char.ofNat code.toNat).val.toNat = code.toNat := by
      rw [Char.ofNat, dif_pos isCode.2]
      rfl
    rw [value]
    omega
  · decide

private theorem plain_codeChar {code : Int} (other : code ≠ Colour.escape.toNat) :
    (layout.codeChar code).Plain :=
  layout.plain_pad (Bytes.plain_utf8EncodeChar (val_charOfCode_ne other))

private theorem plain_asciiGlyph {mark : UInt8} (proper : mark ≠ Colour.escape) (glyph : Glyph) :
    (asciiGlyph mark glyph).Plain := by
  have escaped := Bytes.plain_escape proper glyph
  unfold asciiGlyph
  split
  · exact escaped
  · dsimp only
    split
    · exact escaped
    split
    · simp +decide
    · simp +decide

private theorem plain_quotedCode (code : Int) : (layout.quotedCode code).Plain := by
  have quoteProper : (0x27 : UInt8) ≠ Colour.escape := by
    decide
  unfold quotedCode
  dsimp only
  split
  · apply plain_pad
    simp [quoteProper, plain_asciiGlyph]
  · exact layout.plain_pad (Bytes.plain_quoteChar _)

private theorem plain_codePoint (code : Int) : (layout.codePoint code).Plain := by
  have named (width word : Nat) :
      (utf8 "U+" ++ Bytes.zeroFill width (digits 16 true word)).Plain := by
    simp +decide [(plain_digits _ _ true word).zeroFill]
  unfold codePoint
  dsimp only
  apply plain_pad
  rw [Bytes.plain_append]
  refine ⟨named _ _, ?_⟩
  split
  · rename_i shown
    have printable := (Bool.and_eq_true_iff.mp (Bool.and_eq_true_iff.mp shown).2).2
    simp only [Bytes.plain_append]
    exact ⟨⟨by decide, Bytes.plain_of_isPrintable printable⟩, by decide⟩
  · exact Bytes.plain_nil

private theorem plain_hexBytes (capital : Bool) (text : Bytes) :
    (layout.hexBytes capital text).Plain := by
  have plainMark :
      Bytes.Plain (if layout.alternate then baseMark 16 capital [] else []) := by
    split
    · exact plain_baseMark 16 capital []
    · exact Bytes.plain_nil
  have plainPair (byte : UInt8) : (Bytes.zeroFill 2 (digits 16 capital byte.toNat)).Plain :=
    (plain_digits (by decide) (by decide) capital byte.toNat).zeroFill 2
  unfold hexBytes
  dsimp only
  generalize text.take (layout.precision.getD text.length) = bytes
  have plainPairs :
      ∀ pair ∈ bytes.map fun byte => Bytes.zeroFill 2 (digits 16 capital byte.toNat),
        pair.Plain :=
    List.forall_mem_map.mpr fun byte _ => plainPair byte
  split
  · exact layout.plain_filling _
  split
  · apply plain_pad
    apply Bytes.plain_intercalate (by decide)
    exact List.forall_mem_map.mpr fun pair member =>
      Bytes.plain_append.mpr ⟨plainMark, plainPairs pair member⟩
  · apply plain_pad
    rw [Bytes.plain_append, Bytes.plain_flatten]
    exact ⟨plainMark, plainPairs⟩

private theorem plain_quotedText {text : Bytes} (plain : text.Plain) :
    (layout.quotedText text).Plain := by
  have quoteProper : Bytes.quote ≠ Colour.escape := by
    decide
  have cut := layout.plain_cut plain
  unfold quotedText
  dsimp only
  split
  · apply plain_pad
    simp +decide [cut]
  split
  · apply plain_pad
    simp [quoteProper, plain_asciiGlyph]
  · exact layout.plain_pad (Bytes.plain_quoted _)

private theorem plain_plainText {text : Bytes} (plain : text.Plain) :
    (layout.plainText text).Plain :=
  layout.plain_pad (layout.plain_cut plain)

/-! ## Letters -/

private theorem plain_general {value : Value} (plain : value.Plain) :
    (layout.general value).Plain := by
  cases value with
  | text text =>
      rw [general]
      split
      · exact layout.plain_quotedText plain
      · exact layout.plain_plainText plain
  | number number =>
      exact layout.plain_number (by decide) (by decide) false Bytes.plain_nil number
  | truth | nothing =>
      exact layout.plain_pad (Value.plain_plain plain)

private theorem plain_numberUnder? {letter : Char} {value : Int}
    (other : value ≠ Colour.escape.toNat) :
    ∀ text ∈ layout.numberUnder? letter value, text.Plain := by
  have written (base : Nat) (several : 1 < base) (most : base ≤ 16) (capital : Bool) :=
    layout.plain_number several most capital Bytes.plain_nil value
  intro text under
  unfold numberUnder? at under
  split at under <;> cases under
  · exact written 10 (by decide) (by decide) false
  · exact written 2 (by decide) (by decide) false
  · exact written 8 (by decide) (by decide) false
  · exact layout.plain_number (by decide) (by decide) false (by decide) value
  · exact written 16 (by decide) (by decide) false
  · exact written 16 (by decide) (by decide) true
  · exact layout.plain_codeChar other
  · exact layout.plain_quotedCode value
  · exact layout.plain_codePoint value

private theorem plain_textUnder? {letter : Char} {value : Bytes} (plain : value.Plain) :
    ∀ text ∈ layout.textUnder? letter value, text.Plain := by
  intro text under
  unfold textUnder? at under
  split at under <;> cases under
  · exact layout.plain_plainText plain
  · exact layout.plain_hexBytes false value
  · exact layout.plain_hexBytes true value
  · exact layout.plain_quotedText plain

private theorem plain_under? (letter : Char) {value : Value} (plain : value.Plain) :
    ∀ text ∈ layout.under? letter value, text.Plain := by
  have named := value.plain_typeName
  intro text under
  unfold under? at under
  split at under
  · cases under
    exact layout.plain_general plain
  split at under
  · cases under
    split
    · exact layout.plain_pad named
    · exact layout.plain_plainText named
  cases value with
  | text value => exact layout.plain_textUnder? plain text under
  | number value => exact layout.plain_numberUnder? plain text under
  | truth value =>
      dsimp only at under
      split at under
      · cases under
        exact layout.plain_general plain
      · cases under
  | nothing => cases under

private theorem plain_remark {letter : Char} (proper : letter.val.toNat ≠ Colour.escape.toNat)
    {text : Bytes} (plain : text.Plain) : (remark letter text).Plain := by
  simp +decide [remark, Bytes.plain_utf8EncodeChar proper, plain]

/-- A plain value is plain under every letter, also under one that does not suit it. -/
theorem plain_write {letter : Char} (proper : letter.val.toNat ≠ Colour.escape.toNat)
    {value : Value} (plain : value.Plain) : (layout.write letter value).Plain := by
  have under := (layout.forLetter letter).plain_under? letter plain
  have remarked :=
    plain_remark proper (value.plain_remarked ((layout.forLetter letter).plain_general plain))
  unfold write
  dsimp only
  cases written : (layout.forLetter letter).under? letter value with
  | some text => exact under text written
  | none => exact remarked

end Layout

namespace Template

/-! ## Directives -/

private theorem val_shown_front_ne {first : UInt8} {rest : Bytes}
    (plain : Bytes.Plain (first :: rest)) :
    (Glyph.front first rest).shown.val.toNat ≠ Colour.escape.toNat := by
  obtain ⟨tail, behind, -, bytes⟩ := Glyph.front_bytes first rest
  cases isGlyph : Glyph.front first rest with
  | stray byte =>
      rw [Glyph.shown]
      decide
  | char value =>
      intro isEscape
      have isChar : value = Char.ofNat 0x1B := Char.ext (UInt32.toNat_inj.mp isEscape)
      rw [isGlyph, isChar] at bytes
      have isFirst : Colour.escape = first := (List.cons.inj bytes).1
      exact (Bytes.plain_cons.mp plain).1 isFirst.symm

namespace Directive

/-- Whether what is left of the template and the remarks so far are plain. -/
structure Plain (directive : Directive) : Prop where
  rest : directive.rest.Plain
  remarks : directive.remarks.Plain

variable {directive : Directive}

/-- A directive that has read on without a remark is still plain. -/
private theorem Plain.onward {later : Directive} (plain : directive.Plain)
    (less : later.rest ⊆ directive.rest) (same : later.remarks = directive.remarks) :
    later.Plain :=
  ⟨plain.rest.of_subset less, same ▸ plain.remarks⟩

private theorem Plain.skip (plain : directive.Plain) (count : Nat) : (directive.skip count).Plain :=
  plain.onward (List.drop_subset _ _) rfl

private theorem Plain.remarking (plain : directive.Plain) {remark : String}
    (proper : (utf8 remark).Plain) :
    (directive.remarking remark).Plain :=
  ⟨plain.rest, Bytes.plain_append.mpr ⟨plain.remarks, proper⟩⟩

private theorem Plain.readFlags (plain : directive.Plain) : directive.readFlags.Plain :=
  plain.onward (List.drop_subset _ _) rfl

private theorem Plain.readIndex (plain : directive.Plain) (values : List Value) :
    (directive.readIndex values).Plain := by
  unfold Directive.readIndex
  split
  · dsimp only
    split
    · split
      · exact plain.onward (List.drop_subset _ _) rfl
      · exact plain.onward (List.drop_subset _ _) rfl
    · exact plain.onward (List.drop_subset _ _) rfl
  · exact plain.onward (List.Subset.refl _) rfl

/-- An asterisk is passed before a value is taken for the size. -/
private theorem Plain.of_takeSize (plain : directive.Plain) {values : List Value}
    {size : Option Int} {behind : Directive}
    (taken : (directive.skip 1).takeSize values = (size, behind)) : behind.Plain := by
  have isBehind : behind = ((directive.skip 1).takeSize values).2 := by
    rw [taken]
  rw [isBehind]
  unfold Directive.takeSize
  dsimp only
  split
  · exact plain.onward (List.drop_subset _ _) rfl
  · exact plain.onward (List.drop_subset _ _) rfl

private theorem Plain.readWidth (plain : directive.Plain) (values : List Value) :
    (directive.readWidth values).Plain := by
  unfold Directive.readWidth
  split
  · split
    · rename_i taken
      exact (plain.of_takeSize taken).onward (List.Subset.refl _) rfl
    · rename_i taken
      exact (plain.of_takeSize taken).remarking (by decide)
  · split
    · exact plain.skip _
    · exact plain
    · exact plain.onward (List.drop_subset _ _) rfl

private theorem Plain.readDigits (plain : directive.Plain) (values : List Value) :
    (directive.readDigits values).Plain := by
  unfold Directive.readDigits
  split
  · split
    · rename_i taken
      exact (plain.of_takeSize taken).onward (List.Subset.refl _) rfl
    · rename_i taken
      exact (plain.of_takeSize taken).remarking (by decide)
  · split
    · exact plain.skip _
    · exact plain.onward (List.drop_subset _ _) rfl

private theorem Plain.readPrecision (plain : directive.Plain) (values : List Value) :
    (directive.readPrecision values).Plain := by
  unfold Directive.readPrecision
  split
  · apply Plain.readDigits
    apply Plain.readIndex
    exact plain.onward (List.drop_subset _ _) rfl
  · exact plain

private theorem plain_read (values : List Value) (next : Nat) {rest : Bytes} (plain : rest.Plain) :
    (read values next rest).Plain := by
  have fresh : Plain { rest, next } := ⟨plain, Bytes.plain_nil⟩
  have sized := ((fresh.readFlags.readIndex values).readWidth values).readPrecision values
  unfold read
  dsimp only
  split
  · exact sized
  · exact sized.readIndex values

private theorem Plain.finish (plain : directive.Plain) {values : List Value}
    (plainValues : ∀ value ∈ values, value.Plain) : (directive.finish values).1.Plain := by
  unfold Directive.finish
  split
  · exact Bytes.plain_append.mpr ⟨plain.remarks, by decide⟩
  · rename_i first rest isRest
    have proper := val_shown_front_ne (isRest ▸ plain.rest)
    dsimp only
    split
    · exact Bytes.plain_append.mpr ⟨plain.remarks, by decide⟩
    split
    · exact Bytes.plain_append.mpr ⟨plain.remarks, Layout.plain_remark proper (by decide)⟩
    split
    · exact Bytes.plain_append.mpr ⟨plain.remarks, Layout.plain_remark proper (by decide)⟩
    · rename_i value found
      have plainValue := plainValues value (List.mem_of_getElem? found)
      exact Bytes.plain_append.mpr
        ⟨plain.remarks, directive.layout.plain_write proper plainValue⟩

end Directive

/-! ## Whole templates -/

section Filling

variable {values : List Value} (plainValues : ∀ value ∈ values, value.Plain)

include plainValues

private theorem plain_extra : (extra values).Plain := by
  unfold extra
  split
  · exact Bytes.plain_nil
  · simp only [Bytes.plain_append]
    refine ⟨⟨by decide, Bytes.plain_intercalate (by decide) ?_⟩, by decide⟩
    exact List.forall_mem_map.mpr fun value member =>
      value.plain_remarked (Value.plain_plain (plainValues value member))

private theorem plain_fillAfter {template : Bytes} (plain : template.Plain) (skipped next : Nat)
    (reordered : Bool) : (fillAfter values skipped next reordered template).Plain := by
  induction template generalizing skipped next reordered with
  | nil =>
      have plainRest : ∀ value ∈ values.drop next, value.Plain :=
        fun value member => plainValues value (List.mem_of_mem_drop member)
      unfold fillAfter
      split
      · exact Bytes.plain_nil
      · exact plain_extra plainRest
  | cons byte rest inductionHypothesis =>
      obtain ⟨proper, plainRest⟩ := Bytes.plain_cons.mp plain
      cases skipped with
      | succ skipped => exact inductionHypothesis plainRest skipped next reordered
      | zero =>
          rw [fillAfter]
          split
          · have written := (Directive.plain_read values next plainRest).finish plainValues
            exact Bytes.plain_append.mpr ⟨written, inductionHypothesis plainRest _ _ _⟩
          · exact Bytes.plain_cons.mpr ⟨proper, inductionHypothesis plainRest _ _ _⟩

/-- A plain template is plain when it is filled with plain values. -/
theorem plain_fill {template : Bytes} (plain : template.Plain) : (fill template values).Plain :=
  plain_fillAfter plainValues plain 0 0 false

end Filling

/-- The code of the escape character has to be left out, because there is a letter for the
character itself. -/
example : ¬ (fill (utf8 "%c") [.number 0x1B]).Plain := by
  decide

/-! ## Text and letters -/

section Reading

variable {values : List Value} {next : Nat} {reordered : Bool}

/-- Text without a percent sign stands as it is. -/
theorem fillAfter_append {text : Bytes} (noPercent : 0x25 ∉ text) (rest : Bytes) :
    fillAfter values 0 next reordered (text ++ rest) =
      text ++ fillAfter values 0 next reordered rest := by
  induction text with
  | nil =>
      rfl
  | cons byte others inductionHypothesis =>
      obtain ⟨notPercent, noLater⟩ := not_or.mp (List.mem_cons.not.mp noPercent)
      rw [List.cons_append, fillAfter, if_neg (Ne.symm notPercent), inductionHypothesis noLater,
        List.cons_append]

private theorem isFinal_bounds {letter : UInt8} (isLetter : Colour.isFinal letter = true) :
    letter < 0x80 ∧ letter ∉ utf8 "[*.%" ∧ ¬(0x30 ≤ letter ∧ letter ≤ 0x39) ∧
      Directive.flag? {} letter = none ∧ Char.ofNat letter.toNat ≠ '%' := by
  have all :
      ∀ number < 256, Colour.isFinal (UInt8.ofNat number) = true →
        UInt8.ofNat number < 0x80 ∧ UInt8.ofNat number ∉ utf8 "[*.%" ∧
          ¬(0x30 ≤ UInt8.ofNat number ∧ UInt8.ofNat number ≤ 0x39) ∧
          Directive.flag? {} (UInt8.ofNat number) = none ∧
          Char.ofNat (UInt8.ofNat number).toNat ≠ '%' := by
    decide +kernel
  have known := all letter.toNat letter.toNat_lt
  rw [UInt8.ofNat_toNat] at known
  exact known isLetter

/-- Nothing stands in front of the letter if the directive starts with it. -/
private theorem Directive.read_letter {letter : UInt8} (isLetter : Colour.isFinal letter = true)
    (rest : Bytes) : read values next (letter :: rest) = { rest := letter :: rest, next } := by
  obtain ⟨-, noMark, noDigit, noFlag, -⟩ := isFinal_bounds isLetter
  have marks : utf8 "[*.%" = [0x5B, 0x2A, 0x2E, 0x25] := by
    decide
  simp only [marks, List.mem_cons, List.not_mem_nil, or_false, not_or] at noMark
  simp [read, readFlags, flagsFrom, noFlag, skip, readIndex, readWidth, readPrecision,
    leadingNumber?, numberFrom?, noDigit, noMark]

/-- A percent sign and a letter stand for the next value in the form that belongs to the letter. -/
theorem fillAfter_letter {letter : UInt8} (isLetter : Colour.isFinal letter = true)
    {value : Value} (found : values[next]? = some value) (rest : Bytes) :
    fillAfter values 0 next reordered (0x25 :: letter :: rest) =
      Layout.write {} (Char.ofNat letter.toNat) value ++
        fillAfter values 0 (next + 1) reordered rest := by
  obtain ⟨ascii, -, -, -, notPercent⟩ := isFinal_bounds isLetter
  have front : Glyph.front letter rest = .char (Char.ofNat letter.toNat) := if_pos ascii
  have width : (Glyph.char (Char.ofNat letter.toNat)).width = 1 := by
    rw [Glyph.width, Glyph.bytes, Glyph.utf8EncodeChar_ascii ascii]
    rfl
  rw [fillAfter, if_pos rfl, Directive.read_letter isLetter]
  simp [Directive.finish, Directive.skip, front, width, Glyph.shown, notPercent, found, fillAfter]

end Reading

end Template

namespace Layout

@[simp]
theorem write_text (text : Bytes) : write {} 's' (.text text) = text := by
  simp [write, forLetter, under?, textUnder?, plainText, pad, cut, filling]

@[simp]
theorem write_number (number : Int) : write {} 'd' (.number number) = Bytes.ofInt number := by
  have sameDigits : digits 10 false number.natAbs = Bytes.ofNat number.natAbs := rfl
  have unfilled (text : Bytes) : Bytes.zeroFill 0 text = text := by
    simp [Bytes.zeroFill]
  have minus : utf8 "-" = [0x2D] := by
    decide
  by_cases negative : number < 0
  · simp [write, forLetter, under?, numberUnder?, Layout.number, pad, spaces, filling, leastDigits,
      sign, sameDigits, unfilled, Bytes.ofInt, negative, minus]
  · simp [write, forLetter, under?, numberUnder?, Layout.number, pad, spaces, filling, leastDigits,
      sign, sameDigits, unfilled, Bytes.ofInt, negative]

end Layout

namespace Template

variable {values : List Value} {next : Nat} {reordered : Bool}

private theorem fillAfter_text {text : Bytes} (found : values[next]? = some (.text text))
    (rest : Bytes) :
    fillAfter values 0 next reordered (utf8 "%s" ++ rest) =
      text ++ fillAfter values 0 (next + 1) reordered rest :=
  calc
    fillAfter values 0 next reordered (0x25 :: 0x73 :: rest)
    _ = Layout.write {} 's' (.text text) ++ fillAfter values 0 (next + 1) reordered rest :=
        fillAfter_letter (by decide) found rest
    _ = text ++ fillAfter values 0 (next + 1) reordered rest := by
        rw [Layout.write_text]

private theorem fillAfter_number {number : Int} (found : values[next]? = some (.number number))
    (rest : Bytes) :
    fillAfter values 0 next reordered (utf8 "%d" ++ rest) =
      Bytes.ofInt number ++ fillAfter values 0 (next + 1) reordered rest :=
  calc
    fillAfter values 0 next reordered (0x25 :: 0x64 :: rest)
    _ = Layout.write {} 'd' (.number number) ++ fillAfter values 0 (next + 1) reordered rest :=
        fillAfter_letter (by decide) found rest
    _ = Bytes.ofInt number ++ fillAfter values 0 (next + 1) reordered rest := by
        rw [Layout.write_number]

/-- Text behind the last directive stands as it is, if all values have been taken. -/
theorem fillAfter_last {text : Bytes} (noPercent : 0x25 ∉ text) (noValue : values.length ≤ next) :
    fillAfter values 0 next reordered text = text := by
  have noRemark : fillAfter values 0 next reordered [] = [] := by
    rw [fillAfter, List.drop_eq_nil_of_le noValue]
    cases reordered <;> rfl
  calc
    fillAfter values 0 next reordered text
    _ = fillAfter values 0 next reordered (text ++ []) := by
        rw [List.append_nil]
    _ = text ++ fillAfter values 0 next reordered [] := fillAfter_append noPercent []
    _ = text := by
        rw [noRemark, List.append_nil]

end Template

/-! ## Colours -/

namespace Colour

variable (colour : Colour) (enabled : Bool) {values : List Value}
  (plainValues : ∀ value ∈ values, value.Plain)

include plainValues

/-- The colour of a filled template can be taken off again, whatever follows. -/
theorem shows_paint_fill {template : Bytes} (plain : template.Plain) :
    Shows (colour.paint enabled (Template.fill template values)) (Template.fill template values) :=
  shows_paint (Template.plain_fill plainValues plain) colour enabled

theorem shows_paint_beside :
    Shows (colour.paint enabled (Value.beside values)) (Value.beside values) :=
  shows_paint (Value.plain_beside plainValues) colour enabled

theorem shows_paintLine_spaced :
    Shows (colour.paintLine enabled (Value.spaced values))
      (Value.spaced values ++ [Bytes.lineFeed]) :=
  shows_paintLine (Value.plain_spaced plainValues) colour enabled

end Colour

/-! ## Lines of the command -/

namespace Command

/-- The line of a token is a filled template. -/
theorem tokenLine_eq_fill (token : Token) :
    tokenLine token =
      Template.fill (utf8 "Token: %s (%s) at line %d, column %d\n")
        [.text token.kind.name, .text token.text, .number token.pos.line,
          .number token.pos.column] := by
  have parts :
      utf8 "Token: %s (%s) at line %d, column %d\n" =
        utf8 "Token: " ++ (utf8 "%s" ++ (utf8 " (" ++ (utf8 "%s" ++ (utf8 ") at line " ++
          (utf8 "%d" ++ (utf8 ", column " ++ (utf8 "%d" ++ utf8 "\n"))))))) := by
    decide
  rw [Template.fill, parts, Template.fillAfter_append (by decide), Template.fillAfter_text rfl,
    Template.fillAfter_append (by decide), Template.fillAfter_text rfl,
    Template.fillAfter_append (by decide), Template.fillAfter_number rfl,
    Template.fillAfter_append (by decide), Template.fillAfter_number rfl,
    Template.fillAfter_last (by decide) (by simp)]
  simp only [tokenLine, List.append_assoc]

/-- What a job tells about a compilation is written by templates: one for every token, and a gray
one for the number of statements. -/
theorem Job.tellCompilation_eq {m : Type → Type} [Monad m] (job : Job) (console : Console m)
    (compilation : Compilation) :
    job.tellCompilation console compilation = (do
      console.say job.status (compilation.tokens.flatMap fun token =>
        Template.fill (utf8 "Token: %s (%s) at line %d, column %d\n")
          [.text token.kind.name, .text token.text, .number token.pos.line,
            .number token.pos.column])
      console.say job.status
        (Colour.gray.paint job.colours
          (Template.fill (utf8 "%d top-level statements\n")
            [.number compilation.program.length]))) := by
  have parts : utf8 "%d top-level statements\n" = utf8 "%d" ++ utf8 " top-level statements\n" := by
    decide
  have counted (number : Nat) :
      Template.fill (utf8 "%d top-level statements\n") [.number number] =
        Bytes.ofNat number ++ utf8 " top-level statements\n" := by
    rw [Template.fill, parts, Template.fillAfter_number rfl,
      Template.fillAfter_last (by decide) (by simp)]
    rfl
  simp only [tellCompilation, ← tokenLine_eq_fill, counted]

end Command

end TriforceScript
