import TriforceScript.Text.Bytes

/-!
# Lines

A text is read line by line, either with every line as a whole or through a window
of a limited size, which gives a long line in pieces.
-/

namespace TriforceScript

namespace Bytes

/-! ## Whole lines -/

/-- The lines of a text that a line feed ends, each with its line feed, and what
stands after the last of them. -/
def splitLines : Bytes → List Bytes × Bytes
  | [] => ([], [])
  | byte :: rest =>
      let (lines, remainder) := splitLines rest
      if byte = lineFeed then
        ([lineFeed] :: lines, remainder)
      else
        match lines with
        | [] => ([], byte :: remainder)
        | line :: lines => ((byte :: line) :: lines, remainder)

/-- Splitting a text into lines loses nothing. -/
theorem splitLines_flatten (text : Bytes) :
    (splitLines text).1.flatten ++ (splitLines text).2 = text := by
  induction text with
  | nil =>
      rfl
  | cons byte rest inductionHypothesis =>
      by_cases ends : byte = lineFeed
      · rcases split : splitLines rest with ⟨lines, remainder⟩
        simp_all [splitLines]
      · rcases split : splitLines rest with ⟨_ | ⟨line, lines⟩, remainder⟩ <;>
          simp_all [splitLines]

/-- A line without the line feed, or the carriage return and line feed, that
end it. -/
def chomp (line : Bytes) : Bytes :=
  if line.getLast? = some lineFeed then
    let body := line.dropLast
    if body.getLast? = some carriageReturn then body.dropLast else body
  else
    line

/-- The lines of a text without their ends.  What stands after the last line
feed is one more line unless it is empty. -/
def textLines (text : Bytes) : List Bytes :=
  let (lines, remainder) := splitLines text
  lines.map chomp ++ if remainder = [] then [] else [remainder]

/-- The number of line feeds in a text. -/
def lineCount (text : Bytes) : Nat :=
  text.count lineFeed

/-! ## Pieces of lines -/

/-- What is taken from a line at once. -/
structure Piece where
  /-- The bytes, without those that end the line. -/
  bytes : Bytes
  /-- Whether the line ends with this piece. -/
  ends : Bool
  deriving DecidableEq, Repr

/-- The line at the front of a text with its line feed, as far as it lies within
the first `limit` bytes. -/
def lineWithin : Nat → Bytes → Bytes
  | 0, _ => []
  | _, [] => []
  | limit + 1, byte :: rest =>
      if byte = lineFeed then [lineFeed] else byte :: lineWithin limit rest

/-- The first piece of a text and the number of bytes that it takes up, when no
more than `limit` bytes are looked at.  A carriage return at the end of a full
window is left for the next piece, because a line feed may follow it. -/
def firstPiece (limit : Nat) (text : Bytes) : Piece × Nat :=
  let line := lineWithin limit text
  if line.getLast? = some lineFeed ∨ line.length < limit then
    (⟨chomp line, true⟩, line.length)
  else if line.getLast? = some carriageReturn then
    (⟨line.dropLast, false⟩, line.length - 1)
  else
    (⟨line, false⟩, line.length)

/-- The pieces of a text whose first `skipped` bytes belong to a piece that has
been taken already. -/
def piecesAfter (limit : Nat) : Nat → Bytes → List Piece
  | _, [] => []
  | skipped + 1, _ :: rest => piecesAfter limit skipped rest
  | 0, byte :: rest =>
      let (piece, taken) := firstPiece limit (byte :: rest)
      piece :: piecesAfter limit (taken - 1) rest

/-- The pieces of a text from left to right, when no more than `limit` bytes are
looked at for each of them. -/
def pieces (limit : Nat) (text : Bytes) : List Piece :=
  piecesAfter limit 0 text

end Bytes

end TriforceScript
