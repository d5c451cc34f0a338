import TriforceScript.Text.Printable

/-!
# Quoted text

Characters and texts between quotes, with everything that cannot be shown as it
is written as an escape.
-/

namespace TriforceScript

/-- The letter that names a control character in an escape. -/
def escapeLetter? (value : Char) : Option UInt8 :=
  match value.toNat with
  | 0x07 => some 0x61
  | 0x08 => some 0x62
  | 0x09 => some 0x74
  | 0x0A => some 0x6E
  | 0x0B => some 0x76
  | 0x0C => some 0x66
  | 0x0D => some 0x72
  | _ => none

/-- How a character is written between two marks `mark`: the mark and the
backslash after a backslash, a control character with a letter of its own by that
letter, another one that is not printable by its code. -/
def escapeChar (mark : UInt8) (value : Char) : Bytes :=
  let code := value.toNat
  if code = mark.toNat ∨ code = 0x5C then
    0x5C :: String.utf8EncodeChar value
  else if isPrintable value then
    String.utf8EncodeChar value
  else
    match escapeLetter? value with
    | some letter => [0x5C, letter]
    | none =>
        if code < 0x80 then
          utf8 "\\x" ++ Bytes.zeroFill 2 (Bytes.hex code)
        else if code < 0x10000 then
          utf8 "\\u" ++ Bytes.zeroFill 4 (Bytes.hex code)
        else
          utf8 "\\U" ++ Bytes.zeroFill 8 (Bytes.hex code)

/-- A character between single quotes. -/
def quoteChar (value : Char) : Bytes :=
  0x27 :: escapeChar 0x27 value ++ [0x27]

/-- How a glyph is written between two marks.  A stray byte is written by its
value. -/
def Glyph.escape (mark : UInt8) : Glyph → Bytes
  | .char value => escapeChar mark value
  | .stray byte => utf8 "\\x" ++ Bytes.zeroFill 2 (Bytes.hex byte.toNat)

/-- A text between double quotes. -/
def Bytes.quoted (text : Bytes) : Bytes :=
  quote :: text.glyphs.flatMap (Glyph.escape quote) ++ [quote]

end TriforceScript
