import TriforceScript.Text.Bytes

/-!
# Values

Texts, numbers and truth values that can be written side by side in a line.
-/

namespace TriforceScript

/-- A value that can be written. -/
inductive Value where
  | text (value : Bytes)
  | number (value : Int)
  | truth (value : Bool)
  | nothing
  deriving DecidableEq, Repr

namespace Value

def plain : Value → Bytes
  | .text value => value
  | .number value => Bytes.ofInt value
  | .truth true => utf8 "true"
  | .truth false => utf8 "false"
  | .nothing => utf8 "<nil>"

def isText : Value → Bool
  | .text _ => true
  | _ => false

/-- The values side by side, with a blank between two that are both no text. -/
def beside : List Value → Bytes
  | [] => []
  | [value] => value.plain
  | first :: second :: rest =>
      let blank := if first.isText || second.isText then [] else [Bytes.space]
      first.plain ++ (blank ++ beside (second :: rest))

/-- The values with a blank between any two. -/
def spaced (values : List Value) : Bytes :=
  List.intercalate [Bytes.space] (values.map plain)

/-- The name of a value's type. -/
def typeName : Value → Bytes
  | .text _ => utf8 "string"
  | .number _ => utf8 "int64"
  | .truth _ => utf8 "bool"
  | .nothing => utf8 "<nil>"

/-- A value in a remark, behind the name of its type, when `written` is its text.
There is nothing to say about the lack of a value but its type. -/
def remarked (value : Value) (written : Bytes) : Bytes :=
  match value with
  | .nothing => value.typeName
  | _ => value.typeName ++ (utf8 "=" ++ written)

end Value

end TriforceScript
