import TriforceScript.Text.Glyph

/-!
# Blanks

The characters with the property White_Space, and what can be done with a text
by leaving them out.  A stray byte is never blank.
-/

namespace TriforceScript

/-- The characters with the property White_Space. -/
def isBlank (value : Char) : Bool :=
  let code := value.toNat
  (0x09 ≤ code && code ≤ 0x0D) || code == 0x20 || code == 0x85 || code == 0xA0 ||
    code == 0x1680 || (0x2000 ≤ code && code ≤ 0x200A) || code == 0x2028 ||
    code == 0x2029 || code == 0x202F || code == 0x205F || code == 0x3000

def Glyph.isBlank : Glyph → Bool
  | .char value => TriforceScript.isBlank value
  | .stray _ => false

namespace Bytes

/-- A text without the blanks at its two ends. -/
def trim (text : Bytes) : Bytes :=
  ofGlyphs ((text.glyphs.dropWhile Glyph.isBlank).reverse.dropWhile Glyph.isBlank).reverse

/-- A field in front of others, unless it is empty. -/
def consField (front : List Glyph) (others : List (List Glyph)) : List (List Glyph) :=
  if front = [] then others else front :: others

/-- The glyphs in front of the first blank, and the fields behind it. -/
def splitFields : List Glyph → List Glyph × List (List Glyph)
  | [] => ([], [])
  | glyph :: rest =>
      let (front, others) := splitFields rest
      if glyph.isBlank then ([], consField front others) else (glyph :: front, others)

/-- The longest parts of a text that hold no blank, from left to right. -/
def fields (text : Bytes) : List Bytes :=
  let (front, others) := splitFields text.glyphs
  (consField front others).map ofGlyphs

end Bytes

end TriforceScript
