import TriforceScript.Colour
import TriforceScript.Proofs.Text.Glyphs
import TriforceScript.Proofs.Text.Numbers
import TriforceScript.Text.Quoted

/-!
# Plain texts

A text is plain if no escape sequence can start in it.  Numbers and quoted texts always are.
Taking escape sequences out of a painted text gives the text back if it is plain, whatever
follows it.
-/

namespace TriforceScript

namespace Bytes

/-- Whether a text has no byte that escape sequences start with. -/
def Plain (text : Bytes) : Prop :=
  Colour.escape ∉ text

instance (text : Bytes) : Decidable text.Plain :=
  inferInstanceAs (Decidable (Colour.escape ∉ text))

@[simp]
theorem plain_nil : Plain [] :=
  List.not_mem_nil

@[simp]
theorem plain_cons {byte : UInt8} {rest : Bytes} :
    Plain (byte :: rest) ↔ byte ≠ Colour.escape ∧ Plain rest := by
  rw [Plain, List.mem_cons, not_or, ne_comm]
  rfl

@[simp]
theorem plain_append {first second : Bytes} :
    Plain (first ++ second) ↔ first.Plain ∧ second.Plain := by
  rw [Plain, List.mem_append, not_or]
  rfl

@[simp]
theorem plain_flatMap {Item : Type} {items : List Item} {write : Item → Bytes} :
    Plain (items.flatMap write) ↔ ∀ item ∈ items, (write item).Plain := by
  simp [Plain]

theorem plain_flatten {parts : List Bytes} :
    Plain parts.flatten ↔ ∀ part ∈ parts, part.Plain := by
  simp [Plain]

theorem Plain.of_subset {text part : Bytes} (plain : text.Plain) (subset : part ⊆ text) :
    part.Plain :=
  fun member => plain (subset member)

private theorem plain_of_space_le {text : Bytes} (visible : ∀ byte ∈ text, space ≤ byte) :
    text.Plain := by
  intro member
  exact absurd (visible _ member) (by decide)

/-! ## Numbers and quoted texts -/

@[simp]
theorem plain_ofNat (number : Nat) : (ofNat number).Plain :=
  plain_of_space_le fun _ => space_le_of_mem_ofNat

@[simp]
theorem plain_ofInt (number : Int) : (ofInt number).Plain :=
  plain_of_space_le fun _ => space_le_of_mem_ofInt

theorem plain_replicate {byte : UInt8} (proper : byte ≠ Colour.escape) (count : Nat) :
    Plain (List.replicate count byte) := by
  intro member
  exact proper (List.eq_of_mem_replicate member).symm

theorem Plain.zeroFill {text : Bytes} (plain : text.Plain) (width : Nat) :
    (zeroFill width text).Plain :=
  plain_append.mpr ⟨plain_replicate (by decide) _, plain⟩

@[simp]
theorem plain_zeroFill_hex (width number : Nat) : (zeroFill width (hex number)).Plain := by
  have digits : (hex number).Plain := plain_of_space_le fun _ => space_le_of_mem_hex
  exact digits.zeroFill width

/-- Only the escape character has an escape byte, so every other one is plain. -/
theorem plain_utf8EncodeChar {value : Char} (other : value.val.toNat ≠ Colour.escape.toNat) :
    Plain (String.utf8EncodeChar value) := by
  intro member
  exact other (Glyph.val_of_mem_utf8EncodeChar (by decide) member)

private theorem space_le_of_isPrintable {value : Char} (printable : isPrintable value = true) :
    0x20 ≤ value.toNat := by
  have ranges : ∀ range ∈ printableRanges, 0x20 ≤ range.1 := by
    decide +kernel
  obtain ⟨range, member, inside⟩ := List.any_eq_true.mp printable
  rw [Bool.and_eq_true, decide_eq_true_iff, decide_eq_true_iff] at inside
  exact Nat.le_trans (ranges range member) inside.1

theorem plain_of_isPrintable {value : Char} (printable : isPrintable value = true) :
    Plain (String.utf8EncodeChar value) := by
  have visible := space_le_of_isPrintable printable
  apply plain_utf8EncodeChar
  intro isEscape
  rw [show value.toNat = Colour.escape.toNat from isEscape] at visible
  exact absurd visible (by decide)

private theorem ne_escape_of_escapeLetter? {value : Char} {letter : UInt8}
    (named : escapeLetter? value = some letter) : letter ≠ Colour.escape := by
  unfold escapeLetter? at named
  split at named <;> cases named <;> decide

/-- What cannot be shown as it is, is not written as it is. -/
private theorem plain_escapeChar {mark : UInt8} (proper : mark ≠ Colour.escape) (value : Char) :
    (escapeChar mark value).Plain := by
  have notMark : mark.toNat ≠ Colour.escape.toNat := fun same => proper (UInt8.toNat_inj.mp same)
  unfold escapeChar
  dsimp only
  split
  · rename_i escaped
    have other : value.val.toNat ≠ Colour.escape.toNat := by
      intro isEscape
      rcases escaped with isMark | isBackslash
      · exact notMark (isMark.symm.trans isEscape)
      · exact absurd (isBackslash.symm.trans isEscape) (by decide)
    exact plain_cons.mpr ⟨by decide, plain_utf8EncodeChar other⟩
  split
  · rename_i printable
    exact plain_of_isPrintable printable
  split
  · rename_i letter named
    simp +decide [ne_escape_of_escapeLetter? named]
  split
  · simp +decide
  split
  · simp +decide
  · simp +decide

@[simp]
theorem plain_quoteChar (value : Char) : (quoteChar value).Plain := by
  simp +decide [quoteChar, plain_escapeChar]

theorem plain_escape {mark : UInt8} (proper : mark ≠ Colour.escape) (glyph : Glyph) :
    (glyph.escape mark).Plain := by
  cases glyph with
  | char value => exact plain_escapeChar proper value
  | stray byte => simp +decide [Glyph.escape]

@[simp]
theorem plain_quoted (text : Bytes) : text.quoted.Plain := by
  simp +decide [quoted, plain_escape]

/-! ## Parts -/

theorem Plain.trim {text : Bytes} (plain : text.Plain) : text.trim.Plain :=
  fun member => plain (mem_of_mem_trim member)

private theorem eq_or_mem_of_mem_consField {front field : List Glyph} {others : List (List Glyph)}
    (member : field ∈ consField front others) : field = front ∨ field ∈ others := by
  unfold consField at member
  split at member
  · exact .inr member
  · exact List.mem_cons.mp member

private theorem splitFields_subset (glyphs : List Glyph) :
    (splitFields glyphs).1 ⊆ glyphs ∧ ∀ field ∈ (splitFields glyphs).2, field ⊆ glyphs := by
  induction glyphs with
  | nil =>
      simp [splitFields]
  | cons glyph rest inductionHypothesis =>
      obtain ⟨front, others⟩ := inductionHypothesis
      rw [splitFields]
      dsimp only
      split
      · refine ⟨List.nil_subset _, ?_⟩
        intro field member
        apply List.subset_cons_of_subset
        rcases eq_or_mem_of_mem_consField member with rfl | inOthers
        · exact front
        · exact others field inOthers
      · refine ⟨List.cons_subset_cons glyph front, ?_⟩
        intro field member
        exact List.subset_cons_of_subset glyph (others field member)

theorem Plain.ofGlyphs {text : Bytes} {glyphs : List Glyph} (plain : text.Plain)
    (subset : glyphs ⊆ text.glyphs) : (ofGlyphs glyphs).Plain := by
  rw [← ofGlyphs_glyphs text] at plain
  apply plain.of_subset
  intro byte member
  obtain ⟨glyph, inGlyphs, inBytes⟩ := List.mem_flatMap.mp member
  exact List.mem_flatMap.mpr ⟨glyph, subset inGlyphs, inBytes⟩

theorem Plain.of_mem_fields {text field : Bytes} (plain : text.Plain)
    (member : field ∈ text.fields) : field.Plain := by
  obtain ⟨front, others⟩ := splitFields_subset text.glyphs
  obtain ⟨glyphs, inFields, rfl⟩ := List.mem_map.mp member
  have subset : glyphs ⊆ text.glyphs := by
    rcases eq_or_mem_of_mem_consField inFields with rfl | inOthers
    · exact front
    · exact others glyphs inOthers
  exact plain.ofGlyphs subset

end Bytes

/-! ## Results -/

/-- Whether a result is as `good` says, or else a fault whose `wording` is plain. -/
inductive Plainly {Fault Value : Type} (wording : Fault → Bytes) (good : Value → Prop) :
    Except Fault Value → Prop
  | ok {value : Value} : good value → Plainly wording good (.ok value)
  | error {fault : Fault} : (wording fault).Plain → Plainly wording good (.error fault)

namespace Plainly

variable {Fault First Second : Type} {wording : Fault → Bytes} {good : First → Prop}
  {first : Except Fault First}

theorem of_ok {value : First} (plainly : Plainly wording good (.ok value)) : good value := by
  cases plainly with
  | ok holds => exact holds

theorem of_error {fault : Fault} (plainly : Plainly wording good (.error fault)) :
    (wording fault).Plain := by
  cases plainly with
  | error plain => exact plain

theorem bind {better : Second → Prop} {second : First → Except Fault Second}
    (plainly : Plainly wording good first)
    (next : ∀ value, good value → Plainly wording better (second value)) :
    Plainly wording better (first >>= second) := by
  cases plainly with
  | ok holds => exact next _ holds
  | error plain => exact .error plain

theorem mapError {Other : Type} {other : Other → Bytes} {translate : Fault → Other}
    (plainly : Plainly wording good first) (same : ∀ fault, other (translate fault) = wording fault) :
    Plainly other good (first.mapError translate) := by
  cases plainly with
  | ok holds => exact .ok holds
  | error plain =>
      apply error
      rwa [same]

end Plainly

/-! ## Painting -/

namespace Colour

theorem strip_cons {byte : UInt8} (other : byte ≠ escape) (rest : Bytes) :
    strip (byte :: rest) = byte :: strip rest := by
  cases rest with
  | nil => rfl
  | cons next behind => simp [strip, stripFrom, other]

theorem strip_code_append (colour : Colour) (rest : Bytes) :
    strip (colour.code ++ rest) = strip rest := by
  cases colour <;> cases rest <;> rfl

/-- `Shows painted text` means that `text` is what is left of `painted` without its escape
sequences, and that none of them goes on in what follows. -/
def Shows (painted text : Bytes) : Prop :=
  ∀ rest, strip (painted ++ rest) = text ++ strip rest

theorem Shows.strip_eq {painted text : Bytes} (shows : Shows painted text) :
    strip painted = text := by
  have alone := shows []
  rwa [List.append_nil, show strip [] = [] from rfl, List.append_nil] at alone

theorem Shows.append {painted more text behind : Bytes} (first : Shows painted text)
    (second : Shows more behind) : Shows (painted ++ more) (text ++ behind) := by
  intro rest
  rw [List.append_assoc, first, second, List.append_assoc]

theorem shows_of_plain {text : Bytes} (plain : text.Plain) : Shows text text := by
  intro rest
  induction text with
  | nil =>
      rfl
  | cons byte others inductionHypothesis =>
      obtain ⟨notEscape, plainOthers⟩ := Bytes.plain_cons.mp plain
      rw [List.cons_append, strip_cons notEscape, inductionHypothesis plainOthers, List.cons_append]

private theorem shows_code (colour : Colour) : Shows colour.code [] :=
  colour.strip_code_append

/-- A colour ends with the text that it is put around. -/
theorem shows_paint {text : Bytes} (plain : text.Plain) (colour : Colour) (enabled : Bool) :
    Shows (colour.paint enabled text) text := by
  cases enabled with
  | false => exact shows_of_plain plain
  | true =>
      have around := ((shows_code colour).append (shows_of_plain plain)).append (shows_code .reset)
      rwa [List.append_nil] at around

theorem shows_paintLine {text : Bytes} (plain : text.Plain) (colour : Colour) (enabled : Bool) :
    Shows (colour.paintLine enabled text) (text ++ [Bytes.lineFeed]) :=
  (shows_paint plain colour enabled).append (shows_of_plain (by decide))

end Colour

end TriforceScript
