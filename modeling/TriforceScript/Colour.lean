import TriforceScript.Text.Bytes

/-!
# Colours

Texts in the colours of a terminal, and texts without them.
-/

namespace TriforceScript

/-- The colours of status lines.  `reset` goes back to the terminal's own. -/
inductive Colour where
  | reset
  | red
  | green
  | yellow
  | blue
  | gray
  deriving DecidableEq, Repr

namespace Colour

/-- The first byte of an escape sequence. -/
abbrev escape : UInt8 := 0x1B

/-- The second byte of an escape sequence. -/
abbrev bracket : UInt8 := 0x5B

/-- The escape sequence that a number selects. -/
def sequence (number : String) : Bytes :=
  escape :: bracket :: utf8 number ++ utf8 "m"

/-- The escape sequence of a colour. -/
def code : Colour → Bytes
  | .reset => sequence "0"
  | .red => sequence "31"
  | .green => sequence "32"
  | .yellow => sequence "33"
  | .blue => sequence "34"
  | .gray => sequence "90"

/-- A text in a colour, if colours are on, and otherwise as it is. -/
def paint (colour : Colour) (enabled : Bool) (text : Bytes) : Bytes :=
  if enabled then colour.code ++ text ++ reset.code else text

/-- A line in a colour.  The line feed stays outside, so that the next line does
not start in it. -/
def paintLine (colour : Colour) (enabled : Bool) (text : Bytes) : Bytes :=
  colour.paint enabled text ++ [Bytes.lineFeed]

/-! ## Taking colours out -/

/-- Whether a byte is an ASCII letter, and so ends an escape sequence. -/
def isFinal (byte : UInt8) : Bool :=
  (0x41 ≤ byte && byte ≤ 0x5A) || (0x61 ≤ byte && byte ≤ 0x7A)

/-- A text without its escape sequences.  `inside` says whether it starts in the
middle of one. -/
def stripFrom (inside : Bool) : Bytes → Bytes
  | [] => []
  | [byte] => if inside then [] else [byte]
  | byte :: next :: rest =>
      if byte = escape ∧ next = bracket then
        stripFrom true rest
      else if inside then
        stripFrom (!isFinal byte) (next :: rest)
      else
        byte :: stripFrom false (next :: rest)

/-- A text without its escape sequences.  One that does not end takes the rest of
the text with it. -/
def strip (text : Bytes) : Bytes :=
  stripFrom false text

end Colour

end TriforceScript
