import TriforceScript.Text.Directive

/-!
# Templates

Values in the places that the directives of a template give them.
-/

namespace TriforceScript

namespace Template

/-- The remark about values that no directive takes. -/
def extra (values : List Value) : Bytes :=
  if values = [] then
    []
  else
    utf8 "%!(EXTRA " ++
      List.intercalate (utf8 ", ") (values.map fun value => value.remarked value.plain) ++
      utf8 ")"

/-- Writes the rest of a template whose first `skipped` bytes belong to a directive
that has been written already, when `next` is the index of the value that comes
next.  Values that are left over are not remarked on if they were `reordered`. -/
def fillAfter (values : List Value) : Nat → Nat → Bool → Bytes → Bytes
  | _, next, reordered, [] => if reordered then [] else extra (values.drop next)
  | skipped + 1, next, reordered, _ :: rest => fillAfter values skipped next reordered rest
  | 0, next, reordered, byte :: rest =>
      if byte = 0x25 then
        let (text, directive) := (Directive.read values next rest).finish values
        text ++
          fillAfter values directive.taken directive.next (reordered || directive.reordered) rest
      else
        byte :: fillAfter values 0 next reordered rest

/-- A template with values in the places of its directives. -/
def fill (template : Bytes) (values : List Value) : Bytes :=
  fillAfter values 0 0 false template

end Template

end TriforceScript
