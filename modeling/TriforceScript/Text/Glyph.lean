import TriforceScript.Text.Bytes

/-!
# Glyphs

A byte string is read as a list of glyphs: the characters that are correctly
encoded in UTF-8, and every other byte by itself.
-/

namespace TriforceScript

/-- One step of reading a byte string as UTF-8. -/
inductive Glyph where
  /-- A correctly encoded character. -/
  | char (value : Char)
  /-- A byte that belongs to no character. -/
  | stray (byte : UInt8)
  deriving DecidableEq, Repr

namespace Glyph

/-- The bytes that a glyph stands for. -/
def bytes : Glyph → Bytes
  | .char value => String.utf8EncodeChar value
  | .stray byte => [byte]

/-- The character to show for a glyph.  A stray byte is shown as U+FFFD. -/
def shown : Glyph → Char
  | .char value => value
  | .stray _ => Char.ofNat 0xFFFD

/-- Whether a byte continues an encoded character. -/
def isTail (byte : UInt8) : Bool :=
  0x80 ≤ byte && byte < 0xC0

/-- The six bits that a continuing byte carries. -/
def tailBits (byte : UInt8) : Nat :=
  byte.toNat % 64

/-- The character with the given code, unless the code is below the least one
that its encoding may have, a surrogate, or out of range. -/
def scalar? (least code : Nat) : Option Char :=
  if valid : code.isValidChar then
    if least ≤ code then some (Char.ofNatAux code valid) else none
  else
    none

/-- The character whose encoding of at least two bytes starts with `first` and
goes on in `rest`. -/
def long? (first : UInt8) (rest : Bytes) : Option Char :=
  if first < 0xC0 then
    none
  else if first < 0xE0 then
    match rest with
    | a :: _ =>
        if isTail a then
          scalar? 0x80 (first.toNat % 32 * 64 + tailBits a)
        else
          none
    | _ => none
  else if first < 0xF0 then
    match rest with
    | a :: b :: _ =>
        if isTail a && isTail b then
          scalar? 0x800 ((first.toNat % 16 * 64 + tailBits a) * 64 + tailBits b)
        else
          none
    | _ => none
  else if first < 0xF8 then
    match rest with
    | a :: b :: c :: _ =>
        if isTail a && isTail b && isTail c then
          scalar? 0x10000
            (((first.toNat % 8 * 64 + tailBits a) * 64 + tailBits b) * 64 + tailBits c)
        else
          none
    | _ => none
  else
    none

/-- The glyph at the front of the text `first :: rest`. -/
def front (first : UInt8) (rest : Bytes) : Glyph :=
  if first < 0x80 then
    .char (Char.ofNat first.toNat)
  else
    match long? first rest with
    | some value => .char value
    | none => .stray first

/-- The number of bytes that a glyph stands for. -/
def width (glyph : Glyph) : Nat :=
  glyph.bytes.length

end Glyph

namespace Bytes

/-- The glyphs of a text whose first `skipped` bytes belong to a glyph that has
been read already. -/
def glyphsAfter : Nat → Bytes → List Glyph
  | _, [] => []
  | skipped + 1, _ :: rest => glyphsAfter skipped rest
  | 0, first :: rest =>
      Glyph.front first rest :: glyphsAfter ((Glyph.front first rest).width - 1) rest

/-- The glyphs of a text, from left to right. -/
def glyphs (text : Bytes) : List Glyph :=
  glyphsAfter 0 text

/-- The text that a list of glyphs stands for. -/
def ofGlyphs (glyphs : List Glyph) : Bytes :=
  glyphs.flatMap Glyph.bytes

/-- Whether the whole of a text is correctly encoded. -/
def isUtf8 (text : Bytes) : Bool :=
  text.glyphs.all fun
    | .char _ => true
    | .stray _ => false

end Bytes

end TriforceScript
