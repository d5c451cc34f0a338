import TriforceScript.Evaluator.Program

/-!
# Echo

A program that writes its arguments in a line.  The first arguments may be options:
`-n` leaves out the end of the line, `-e` gives escapes their meaning, and `-E` takes
it from them again.
-/

namespace TriforceScript

namespace Evaluator

namespace Echo

/-- The byte that an escape starts with. -/
abbrev backslash : UInt8 := 0x5C

/-! ## Options -/

/-- How the arguments are to be written. -/
structure Style where
  /-- Whether the line has an end. -/
  ended : Bool := true
  /-- Whether escapes have a meaning. -/
  escapes : Bool := false
  deriving DecidableEq, Repr

/-- The style after one more letter of an option, if it is one. -/
def Style.with? (style : Style) (letter : UInt8) : Option Style :=
  match Char.ofNat letter.toNat with
  | 'n' => some { style with ended := false }
  | 'e' => some { style with escapes := true }
  | 'E' => some { style with escapes := false }
  | _ => none

/-- The style after an argument, if all of it is a minus sign and letters of
options. -/
def Style.after? (style : Style) (argument : Bytes) : Option Style :=
  match argument with
  | sign :: letter :: letters =>
      if sign = 0x2D then (letter :: letters).foldlM Style.with? style else none
  | _ => none

/-- The style that the options ask for, and the arguments behind them. -/
def options (style : Style) : List Bytes → Style × List Bytes
  | [] => (style, [])
  | argument :: rest =>
      match style.after? argument with
      | some style => options style rest
      | none => (style, argument :: rest)

/-! ## Escapes -/

/-- The value of a digit in a base up to sixteen. -/
def digit? (base : Nat) (byte : UInt8) : Option Nat :=
  let code := byte.toNat
  let value :=
    if 0x30 ≤ code ∧ code ≤ 0x39 then
      code - 0x30
    else if 0x41 ≤ code ∧ code ≤ 0x46 then
      code - 0x41 + 10
    else if 0x61 ≤ code ∧ code ≤ 0x66 then
      code - 0x61 + 10
    else
      base
  if value < base then some value else none

/-- The value of at most `limit` digits at the front of a text, when the digits
before them have the value `value`, and the number of the digits. -/
def number (base : Nat) : Nat → Nat → Nat → Bytes → Nat × Nat
  | 0, value, count, _ => (value, count)
  | _, value, count, [] => (value, count)
  | limit + 1, value, count, byte :: rest =>
      match digit? base byte with
      | some digit => number base limit (value * base + digit) (count + 1) rest
      | none => (value, count)

/-- What an escape stands for. -/
inductive Meaning where
  /-- A byte, and the number of bytes of the escape behind the first two. -/
  | byte (value : UInt8) (taken : Nat)
  /-- The end of all output. -/
  | stop
  /-- Nothing but itself. -/
  | none
  deriving DecidableEq, Repr

/-- The meaning of the escape with the letter `letter`, when `rest` stands behind
it. -/
def meaning (letter : UInt8) (rest : Bytes) : Meaning :=
  match Char.ofNat letter.toNat with
  | 'a' => .byte 0x07 0
  | 'b' => .byte 0x08 0
  | 'c' => .stop
  | 'e' => .byte 0x1B 0
  | 'f' => .byte 0x0C 0
  | 'n' => .byte 0x0A 0
  | 'r' => .byte 0x0D 0
  | 't' => .byte 0x09 0
  | 'v' => .byte 0x0B 0
  | '\\' => .byte backslash 0
  | 'x' =>
      let (value, count) := number 16 2 0 0 rest
      if count = 0 then .none else .byte value.toUInt8 count
  | '0' =>
      let (value, count) := number 8 3 0 0 rest
      .byte value.toUInt8 count
  | _ =>
      match digit? 8 letter with
      | some digit =>
          let (value, count) := number 8 2 digit 0 rest
          .byte value.toUInt8 count
      | none => .none

/-- A text with its escapes replaced by what they stand for, when the first `skipped`
bytes belong to an escape already.  Only a text that no escape stops has an end. -/
def unescapeAfter (ended : Bytes) : Nat → Bytes → Bytes
  | _, [] => ended
  | skipped + 1, _ :: rest => unescapeAfter ended skipped rest
  | 0, byte :: rest =>
      if byte = backslash then
        match rest with
        | [] => byte :: ended
        | letter :: others =>
            match meaning letter others with
            | .byte value taken => value :: unescapeAfter ended (taken + 1) (letter :: others)
            | .stop => []
            | .none => byte :: letter :: unescapeAfter ended 1 (letter :: others)
      else
        byte :: unescapeAfter ended 0 rest

def line (style : Style) (words : List Bytes) : Bytes :=
  let ended := if style.ended then [Bytes.lineFeed] else []
  let text := List.intercalate [Bytes.space] words
  if style.escapes then unescapeAfter ended 0 text else text ++ ended

end Echo

/-- Writes its arguments in a line. -/
def echo : Program :=
  fun _ _ arguments =>
    let (style, words) := Echo.options {} arguments
    ⟨Echo.line style words, [], 0⟩

end Evaluator

end TriforceScript
