import TriforceScript.Path
import TriforceScript.Text.Glyph
import TriforceScript.Text.Lines

/-!
# History

The chunks of earlier sessions, oldest first, and the file they are kept in.
-/

namespace TriforceScript

/-- Items that were entered, the oldest first. -/
abbrev History := List Bytes

namespace History

/-- The greatest number of items that are kept. -/
def limit : Nat :=
  1000

/-- The latest items, as many as are kept. -/
def latest (items : History) : History :=
  items.drop (items.length - limit)

/-- Adds an item, unless it is the same as the latest one. -/
def append (items : History) (item : Bytes) : History :=
  if items.getLast? = some item then items else latest (items ++ [item])

/-- The items among lines, up to the first line that is not UTF-8. -/
def ofLines (lines : List Bytes) : History :=
  latest (lines.takeWhile Bytes.isUtf8)

/-- The items of a file, up to the first line that is not UTF-8 or is too long to be
looked at as a whole. -/
def load (limit : Nat) (content : Bytes) : History :=
  ofLines (((content.pieces limit).takeWhile Bytes.Piece.ends).map Bytes.Piece.bytes)

/-- The content of a file that keeps the items. -/
def save (items : History) : Bytes :=
  items.flatMap (· ++ [Bytes.lineFeed])

/-- The name of the file in the home folder, if there is a home folder. -/
def path? (home : Option Bytes) : Option Bytes :=
  match home with
  | none => none
  | some folder =>
      if folder = [] then
        none
      else
        some (Path.clean (folder ++ Path.slash :: utf8 ".triforce_history"))

end History

end TriforceScript
