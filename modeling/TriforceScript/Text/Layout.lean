import TriforceScript.Text.Quoted
import TriforceScript.Text.Value

/-!
# Layouts

How a single value is written: in which form, in how many characters, and filled
up on which side.  The form is chosen by a letter, and not every letter suits every
value.
-/

namespace TriforceScript

/-- How a value is to be laid out. -/
structure Layout where
  /-- Whether to fill up on the right. -/
  left : Bool := false
  /-- Whether to write the sign of positive numbers, and texts in ASCII. -/
  plus : Bool := false
  /-- Whether to write the other form that belongs to a letter. -/
  alternate : Bool := false
  /-- Whether to leave room for a sign, or between bytes. -/
  blank : Bool := false
  /-- Whether to fill up with zeros. -/
  zero : Bool := false
  /-- Whether to write texts between quotes where quotes are not asked for. -/
  literal : Bool := false
  /-- The least number of characters. -/
  width : Option Nat := none
  /-- The least number of digits, or the greatest number of characters of a text. -/
  precision : Option Nat := none
  deriving DecidableEq, Repr

namespace Layout

/-! ## Filling up and cutting down -/

/-- As many fill characters as asked for. -/
def filling (layout : Layout) (count : Nat) : Bytes :=
  List.replicate count (if layout.zero && !layout.left then 0x30 else Bytes.space)

/-- A text filled up to the width. -/
def pad (layout : Layout) (text : Bytes) : Bytes :=
  let fill := layout.filling (layout.width.getD 0 - text.glyphs.length)
  if layout.left then text ++ fill else fill ++ text

/-- A text cut down to the precision. -/
def cut (layout : Layout) (text : Bytes) : Bytes :=
  match layout.precision with
  | none => text
  | some count => Bytes.ofGlyphs (text.glyphs.take count)

/-- The same layout, but never filled up with zeros. -/
def spaces (layout : Layout) : Layout :=
  { layout with zero := false }

/-! ## Numbers -/

/-- The sign in front of a number. -/
def sign (layout : Layout) (number : Int) : Bytes :=
  if number < 0 then
    utf8 "-"
  else if layout.plus then
    utf8 "+"
  else if layout.blank then
    utf8 " "
  else
    []

/-- The digits of a number in a base up to sixteen. -/
def digits (base : Nat) (capital : Bool) (number : Nat) : Bytes :=
  (Nat.toDigits base number).flatMap fun digit =>
    String.utf8EncodeChar (if capital then digit.toUpper else digit)

/-- What stands in front of digits to tell their base, in the other form.  A number
in base eight only has to start with a zero. -/
def baseMark (base : Nat) (capital : Bool) (digits : Bytes) : Bytes :=
  if base = 2 then
    utf8 "0b"
  else if base = 8 then
    if digits.head? = some 0x30 then [] else utf8 "0"
  else if base = 16 then
    if capital then utf8 "0X" else utf8 "0x"
  else
    []

/-- The least number of digits.  Zeros that fill up the width leave room for a
sign. -/
def leastDigits (layout : Layout) (sign : Bytes) : Nat :=
  match layout.precision, layout.width with
  | some count, _ => count
  | none, some width => if layout.zero && !layout.left then width - sign.length else 0
  | none, none => 0

/-- A number in some base, with `mark` between sign and digits.  A zero that needs
no digits has none. -/
def number (layout : Layout) (base : Nat) (capital : Bool) (mark : Bytes) (value : Int) :
    Bytes :=
  if layout.precision = some 0 ∧ value = 0 then
    layout.spaces.filling (layout.width.getD 0)
  else
    let sign := layout.sign value
    let digits := Bytes.zeroFill (layout.leastDigits sign) (digits base capital value.natAbs)
    let form := if layout.alternate then baseMark base capital digits else []
    layout.spaces.pad (sign ++ (mark ++ (form ++ digits)))

/-! ## Characters -/

/-- The character with a given code.  A number that is the code of none is shown as
U+FFFD. -/
def charOfCode (code : Int) : Char :=
  if 0 ≤ code ∧ code.toNat.isValidChar then Char.ofNat code.toNat else Char.ofNat 0xFFFD

/-- How a glyph is written by escapes alone if it is not ASCII. -/
def asciiGlyph (mark : UInt8) (glyph : Glyph) : Bytes :=
  match glyph with
  | .stray _ => glyph.escape mark
  | .char value =>
      let code := value.toNat
      if code < 0x80 then
        glyph.escape mark
      else if code < 0x10000 then
        utf8 "\\u" ++ Bytes.zeroFill 4 (Bytes.hex code)
      else
        utf8 "\\U" ++ Bytes.zeroFill 8 (Bytes.hex code)

/-- The character that a number is the code of. -/
def codeChar (layout : Layout) (code : Int) : Bytes :=
  layout.pad (String.utf8EncodeChar (charOfCode code))

/-- The character that a number is the code of, between quotes. -/
def quotedCode (layout : Layout) (code : Int) : Bytes :=
  let value := charOfCode code
  if layout.plus then
    layout.pad (0x27 :: asciiGlyph 0x27 (.char value) ++ [0x27])
  else
    layout.pad (quoteChar value)

/-- The number of values that 64 bits have. -/
def wordCount : Int :=
  0x10000000000000000

/-- A number of 64 bits as the name of a code point.  The other form shows the
character too, if it is printable. -/
def codePoint (layout : Layout) (code : Int) : Bytes :=
  let word : Nat := (code % wordCount).toNat
  let value := charOfCode word
  let name :=
    utf8 "U+" ++ Bytes.zeroFill (max 4 (layout.precision.getD 0)) (digits 16 true word)
  let picture :=
    if layout.alternate && (value.toNat == word && isPrintable value) then
      utf8 " '" ++ String.utf8EncodeChar value ++ utf8 "'"
    else
      []
  layout.spaces.pad (name ++ picture)

/-! ## Texts -/

/-- The bytes of a text as pairs of hexadecimal digits. -/
def hexBytes (layout : Layout) (capital : Bool) (text : Bytes) : Bytes :=
  let bytes := text.take (layout.precision.getD text.length)
  let mark := if layout.alternate then baseMark 16 capital [] else []
  let pairs := bytes.map fun byte => Bytes.zeroFill 2 (digits 16 capital byte.toNat)
  if pairs = [] then
    layout.filling (layout.width.getD 0)
  else if layout.blank then
    layout.pad (List.intercalate [Bytes.space] (pairs.map (mark ++ ·)))
  else
    layout.pad (mark ++ pairs.flatten)

/-- Whether a text can stand between backquotes. -/
def isRaw (text : Bytes) : Bool :=
  text.glyphs.all fun
    | .stray _ => false
    | .char value =>
        let code := value.toNat
        code != 0xFEFF && code != 0x60 && code != 0x7F && (code == 0x09 || 0x20 ≤ code)

/-- A text between quotes. -/
def quotedText (layout : Layout) (text : Bytes) : Bytes :=
  let text := layout.cut text
  if layout.alternate && isRaw text then
    layout.pad (0x60 :: text ++ [0x60])
  else if layout.plus then
    layout.pad (Bytes.quote :: text.glyphs.flatMap (asciiGlyph Bytes.quote) ++ [Bytes.quote])
  else
    layout.pad text.quoted

/-- A text as it is. -/
def plainText (layout : Layout) (text : Bytes) : Bytes :=
  layout.pad (layout.cut text)

/-! ## Letters -/

/-- The text of a value in the form that suits every value. -/
def general (layout : Layout) : Value → Bytes
  | .text text => if layout.literal then layout.quotedText text else layout.plainText text
  | .number number => layout.number 10 false [] number
  | value => layout.pad value.plain

/-- The layout that a letter makes of the one that its directive asks for.  For the
letters of the general form the other form is the literal one, and there is no
form with signs. -/
def forLetter (layout : Layout) (letter : Char) : Layout :=
  if letter = 'v' ∨ letter = 'w' then
    { layout with plus := false, alternate := false, literal := layout.alternate }
  else
    layout

/-- The text of a number under a letter, if the letter suits it. -/
def numberUnder? (layout : Layout) (letter : Char) (value : Int) : Option Bytes :=
  match letter with
  | 'd' => some (layout.number 10 false [] value)
  | 'b' => some (layout.number 2 false [] value)
  | 'o' => some (layout.number 8 false [] value)
  | 'O' => some (layout.number 8 false (utf8 "0o") value)
  | 'x' => some (layout.number 16 false [] value)
  | 'X' => some (layout.number 16 true [] value)
  | 'c' => some (layout.codeChar value)
  | 'q' => some (layout.quotedCode value)
  | 'U' => some (layout.codePoint value)
  | _ => none

/-- The text of a text under a letter, if the letter suits it. -/
def textUnder? (layout : Layout) (letter : Char) (value : Bytes) : Option Bytes :=
  match letter with
  | 's' => some (layout.plainText value)
  | 'x' => some (layout.hexBytes false value)
  | 'X' => some (layout.hexBytes true value)
  | 'q' => some (layout.quotedText value)
  | _ => none

/-- The text of a value under a letter, if the letter suits it. -/
def under? (layout : Layout) (letter : Char) (value : Value) : Option Bytes :=
  if letter = 'v' then
    some (layout.general value)
  else if letter = 'T' then
    some (if value = .nothing then layout.pad value.typeName else layout.plainText value.typeName)
  else
    match value with
    | .text value => layout.textUnder? letter value
    | .number value => layout.numberUnder? letter value
    | .truth _ => if letter = 't' then some (layout.general value) else none
    | .nothing => none

/-- A remark about a directive with the given letter. -/
def remark (letter : Char) (text : Bytes) : Bytes :=
  utf8 "%!" ++ String.utf8EncodeChar letter ++ utf8 "(" ++ text ++ utf8 ")"

/-- The text of a value under a letter, or a remark with its general form. -/
def write (layout : Layout) (letter : Char) (value : Value) : Bytes :=
  let layout := layout.forLetter letter
  (layout.under? letter value).getD (remark letter (value.remarked (layout.general value)))

end Layout

end TriforceScript
