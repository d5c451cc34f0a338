import TriforceScript.Text.Glyph

/-!
# Positions

A position is a line and a column.  Columns count glyphs, so that a character of
several bytes is one column wide, and so is a stray byte.
-/

namespace TriforceScript

/-- A place in a source text. -/
structure Position where
  /-- The line, counted from one. -/
  line : Int
  /-- The column, counted from one. -/
  column : Int
  deriving DecidableEq, Repr

namespace Position

/-- The place before the first byte of a text. -/
def start : Position :=
  ⟨1, 1⟩

/-- The place that belongs to no text. -/
def origin : Position :=
  ⟨0, 0⟩

/-- The place behind a glyph. -/
def step (position : Position) (glyph : Glyph) : Position :=
  if glyph = .char '\n' then
    ⟨position.line + 1, 1⟩
  else
    ⟨position.line, position.column + 1⟩

/-- The place behind a text that starts at `position`. -/
def advance (position : Position) (text : Bytes) : Position :=
  text.glyphs.foldl step position

end Position

end TriforceScript
