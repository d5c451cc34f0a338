import TriforceScript.Text.Bytes

/-!
# Paths

File names as components between slashes.
-/

namespace TriforceScript

namespace Path

/-- The byte between components. -/
abbrev slash : UInt8 := 0x2F

/-- The component for the folder itself. -/
def here : Bytes :=
  utf8 "."

/-- The component for the folder above. -/
def above : Bytes :=
  utf8 ".."

/-- The parts of a name between its slashes.  A part may be empty. -/
def components : Bytes → List Bytes
  | [] => [[]]
  | byte :: rest =>
      if byte = slash then
        [] :: components rest
      else
        match components rest with
        | [] => [[byte]]
        | first :: others => (byte :: first) :: others

/-- Whether a name counts from the root. -/
def isAbsolute (name : Bytes) : Bool :=
  name.head? == some slash

/-- Components with slashes between them. -/
def join (parts : List Bytes) : Bytes :=
  List.intercalate [slash] parts

/-- Adds a component to a path whose last component is the first of `parts`.  The
folder above a component is left out together with it; the root has none above. -/
def descend (absolute : Bool) (parts : List Bytes) (part : Bytes) : List Bytes :=
  if part = [] ∨ part = here then
    parts
  else if part = above then
    match parts with
    | [] => if absolute then [] else [above]
    | last :: others => if last = above then above :: parts else others
  else
    part :: parts

/-- The shortest name for the same place, as far as the name alone can tell. -/
def clean (name : Bytes) : Bytes :=
  let parts := ((components name).foldl (descend (isAbsolute name)) []).reverse
  if isAbsolute name then
    slash :: join parts
  else if parts = [] then
    here
  else
    join parts

end Path

end TriforceScript
