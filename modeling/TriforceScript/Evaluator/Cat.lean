import TriforceScript.Evaluator.Program
import TriforceScript.Text.Lines

/-!
# Cat

A program that copies files and its input to the output, one behind the other.
Options number the lines, leave out empty ones, or show what cannot be seen.
-/

namespace TriforceScript

namespace Evaluator

namespace Cat

/-! ## Options -/

/-- How lines are to be written. -/
structure Style where
  /-- Whether lines are numbered. -/
  numbered : Bool := false
  /-- Whether empty lines have no number. -/
  textOnly : Bool := false
  /-- Whether only the first of several empty lines is written. -/
  squeezed : Bool := false
  /-- Whether a dollar sign shows where a line ends. -/
  ends : Bool := false
  /-- Whether tabs are shown by letters. -/
  tabs : Bool := false
  /-- Whether all other control characters, and bytes above ASCII, are. -/
  controls : Bool := false
  deriving DecidableEq, Repr

/-- The style after one more letter of an option, if it is one. -/
def Style.with? (style : Style) (letter : UInt8) : Option Style :=
  match Char.ofNat letter.toNat with
  | 'b' => some { style with numbered := true, textOnly := true }
  | 'n' => some { style with numbered := true }
  | 's' => some { style with squeezed := true }
  | 'E' => some { style with ends := true }
  | 'T' => some { style with tabs := true }
  | 'v' => some { style with controls := true }
  | 'e' => some { style with ends := true, controls := true }
  | 't' => some { style with tabs := true, controls := true }
  | 'A' => some { style with ends := true, tabs := true, controls := true }
  | 'u' => some style
  | _ => none

/-- The letter of an option with a long name. -/
def longOption? (name : Bytes) : Option UInt8 :=
  [(utf8 "show-all", 0x41), (utf8 "number-nonblank", 0x62), (utf8 "show-ends", 0x45),
    (utf8 "number", 0x6E), (utf8 "squeeze-blank", 0x73), (utf8 "show-tabs", 0x54),
    (utf8 "show-nonprinting", 0x76)].lookup name

/-- Why an argument is no option. -/
inductive Complaint where
  | letter (byte : UInt8)
  | name (argument : Bytes)
  deriving DecidableEq, Repr

/-- The style after the letters of an option. -/
def Style.withAll (style : Style) : Bytes → Except Complaint Style
  | [] => .ok style
  | letter :: rest =>
      match style.with? letter with
      | some style => style.withAll rest
      | none => .error (.letter letter)

/-- The style after an argument with a minus sign in front. -/
def Style.after (style : Style) (argument : Bytes) : Except Complaint Style :=
  if (utf8 "--").isPrefixOf argument then
    match (longOption? (argument.drop 2)).bind style.with? with
    | some style => .ok style
    | none => .error (.name argument)
  else
    style.withAll (argument.drop 1)

/-- The style that the options ask for, and the names among the arguments.  Options
may stand behind names, but not behind two minus signs. -/
def options (style : Style) : List Bytes → Except Complaint (Style × List Bytes)
  | [] => .ok (style, [])
  | argument :: rest =>
      if argument = utf8 "--" then
        .ok (style, rest)
      else if argument.head? = some 0x2D ∧ argument ≠ utf8 "-" then do
        let style ← style.after argument
        options style rest
      else do
        let (style, names) ← options style rest
        return (style, argument :: names)

/-! ## Lines -/

/-- A byte with controls shown by letters. -/
def shownControl (byte : UInt8) : Bytes :=
  let low := byte % 0x80
  let shown := if low < 0x20 then [0x5E, low + 0x40] else if low = 0x7F then [0x5E, 0x3F] else [low]
  if byte < 0x80 then shown else 0x4D :: 0x2D :: shown

/-- A byte of a line. -/
def shownByte (style : Style) (byte : UInt8) : Bytes :=
  if byte = 0x09 then
    if style.tabs then [0x5E, 0x49] else [byte]
  else if style.controls then
    shownControl byte
  else
    [byte]

/-- The bytes of a line without its end.  Where ends are shown, so is a carriage
return before them. -/
def shownLine (style : Style) (ended : Bool) (content : Bytes) : Bytes :=
  if style.ends && (ended && content.getLast? == some Bytes.carriageReturn) then
    content.dropLast.flatMap (shownByte style) ++ [0x5E, 0x4D]
  else
    content.flatMap (shownByte style)

def numberColumn (number : Nat) : Bytes :=
  let digits := Bytes.ofNat number
  List.replicate (6 - digits.length) Bytes.space ++ digits ++ [0x09]

/-- A line, when `before` lines have been numbered, and the number of lines that are
numbered now. -/
def line (style : Style) (before : Nat) (ended : Bool) (content : Bytes) : Bytes × Nat :=
  let mark := if style.ends && ended then [0x24] else []
  let feed := if ended then [Bytes.lineFeed] else []
  let text := shownLine style ended content ++ (mark ++ feed)
  if style.numbered && !(style.textOnly && content.isEmpty) then
    (numberColumn (before + 1) ++ text, before + 1)
  else
    (text, before)

/-- Lines with their ends, when `before` lines have been numbered and `empty` empty
lines stand right before them. -/
def linesFrom (style : Style) (remainder : Bytes) : Nat → Nat → List Bytes → Bytes
  | before, _, [] =>
      if remainder = [] then [] else (line style before false remainder).1
  | before, empty, text :: rest =>
      let content := text.dropLast
      let empty := if content = [] then empty + 1 else 0
      if style.squeezed && 1 < empty then
        linesFrom style remainder before empty rest
      else
        let (written, before) := line style before true content
        written ++ linesFrom style remainder before empty rest

def format (style : Style) (text : Bytes) : Bytes :=
  if style = {} then
    text
  else
    let (lines, remainder) := Bytes.splitLines text
    linesFrom style remainder 0 0 lines

/-! ## Files -/

/-- The wording of what stands in the way of a file. -/
def causeText : FileTree.Cause → Bytes
  | .missing => utf8 "No such file or directory"
  | .notFolder => utf8 "Not a directory"
  | .isFolder => utf8 "Is a directory"
  | .invalidName => utf8 "Invalid argument"
  | .longName => utf8 "File name too long"
  | .denied => utf8 "Permission denied"

def copyFile (files : FileTree) (name : Bytes) : Effect :=
  match files.read name with
  | .ok content => ⟨content, [], 0⟩
  | .error fault =>
      let shown := if name = [] then utf8 "''" else name
      ⟨[], utf8 "cat: " ++ shown ++ utf8 ": " ++ causeText fault.cause ++ utf8 "\n", 1⟩

/-- Copies files, and what is left of the input for a minus sign. -/
def copy (files : FileTree) : Bytes → List Bytes → Effect
  | _, [] => {}
  | input, name :: rest =>
      if name = utf8 "-" then
        Effect.andThen ⟨input, [], 0⟩ (copy files [] rest)
      else
        (copyFile files name).andThen (copy files input rest)

def Complaint.message : Complaint → Bytes
  | .letter byte => utf8 "invalid option -- '" ++ [byte] ++ utf8 "'"
  | .name argument => utf8 "unrecognized option '" ++ argument ++ utf8 "'"

/-- What is done about an argument that is no option. -/
def refuse (complaint : Complaint) : Effect :=
  ⟨[], utf8 "cat: " ++ complaint.message ++
    utf8 "\nTry 'cat --help' for more information.\n", 1⟩

end Cat

/-- Copies files to the output, or the input if there are no files. -/
def cat : Program :=
  fun files input arguments =>
    match Cat.options {} arguments with
    | .error complaint => Cat.refuse complaint
    | .ok (style, names) =>
        let effect := Cat.copy files input (if names = [] then [utf8 "-"] else names)
        { effect with out := Cat.format style effect.out }

end Evaluator

end TriforceScript
