import TriforceScript.FileTree
import TriforceScript.Compilation

/-!
# Sources

Where source texts come from: streams, which may fail, and files, which may start
with a line for the system.
-/

namespace TriforceScript

/-- A source text, or the report why it cannot be had. -/
abbrev Source := Except Report Bytes

namespace Source

/-- What a stream gives before its end, or before it fails. -/
def ofStream (content : Bytes) (failure : Option Bytes) : Source :=
  match failure with
  | none => .ok content
  | some message => .error (.outside message)

/-- The source text in the content of a file.  A first line that starts with `#!`
is not part of it. -/
def ofContent (content : Bytes) : Bytes :=
  if (utf8 "#!").isPrefixOf content then
    (content.dropWhile (· != Bytes.lineFeed)).drop 1
  else
    content

def ofFile (files : FileTree) (name : Bytes) : Source :=
  match files.read name with
  | .ok content => .ok (ofContent content)
  | .error fault => .error (.outside fault.message)

def parse (source : Source) : Noted (Except Report Program) :=
  match source with
  | .error report => ⟨[], .error report⟩
  | .ok text =>
      let parsed := TriforceScript.parse text
      ⟨parsed.notes, parsed.result.mapError Report.ofFault⟩

/-- The JavaScript file of a source text. -/
def compile (source : Source) : Except Report Bytes := do
  (compileText (← source)).mapError Report.ofFault

end Source

end TriforceScript
