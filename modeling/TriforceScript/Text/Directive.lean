import TriforceScript.Text.Layout

/-!
# Directives

A directive of a template stands behind a percent sign: flags, a width, a precision
and a letter.  Width and precision may be taken from the values, and a number
between brackets tells which value comes next.
-/

namespace TriforceScript

namespace Template

/-- The greatest size of a number in a directive before its last digit. -/
def numberLimit : Nat :=
  1000000

/-- Goes on reading a decimal number of which `count` digits with the value `value`
have been read.  A number that grows too large is none. -/
def numberFrom? (value count : Nat) : Bytes → Option (Nat × Nat)
  | [] => some (value, count)
  | byte :: rest =>
      if 0x30 ≤ byte ∧ byte ≤ 0x39 then
        if numberLimit < value then
          none
        else
          numberFrom? (value * 10 + (byte.toNat - 0x30)) (count + 1) rest
      else
        some (value, count)

/-- The decimal number at the front of a text and the number of its digits, which
is zero if there is no number. -/
def leadingNumber? (text : Bytes) : Option (Nat × Nat) :=
  numberFrom? 0 0 text

/-- The number between the brackets at the front of a text, if it is one, and the
number of bytes that the brackets take up.  A bracket that is never closed takes up
only itself. -/
def bracketed (text : Bytes) : Option Nat × Nat :=
  let inner := text.drop 1
  match inner.idxOf? 0x5D with
  | none => (none, 1)
  | some count =>
      if inner.drop 1 = [] then
        (none, 1)
      else
        match leadingNumber? (inner.take count) with
        | some (number, digits) =>
            (if digits = count ∧ digits ≠ 0 then some number else none, count + 2)
        | none => (none, count + 2)

/-- The number that a value gives as a width or precision, if it can. -/
def Size.ofValue? : Value → Option Int
  | .number value => if value.natAbs ≤ numberLimit then some value else none
  | _ => none

/-- A directive that is being read. -/
structure Directive where
  /-- What is left of the template. -/
  rest : Bytes
  /-- The number of bytes that have been read. -/
  taken : Nat := 0
  /-- The layout so far. -/
  layout : Layout := {}
  /-- The index of the value that comes next. -/
  next : Nat
  /-- Whether the last thing to be read was the index of a value. -/
  indexed : Bool := false
  /-- Whether any index has been read. -/
  reordered : Bool := false
  /-- Whether all indexes are those of values and stand where they may. -/
  sound : Bool := true
  /-- The remarks so far. -/
  remarks : Bytes := []
  deriving DecidableEq, Repr

namespace Directive

/-- The directive with some more bytes read. -/
def skip (directive : Directive) (count : Nat) : Directive :=
  { directive with rest := directive.rest.drop count, taken := directive.taken + count }

/-- The directive with all the template read. -/
def skipAll (directive : Directive) : Directive :=
  directive.skip directive.rest.length

def remarking (directive : Directive) (remark : String) : Directive :=
  { directive with remarks := directive.remarks ++ utf8 remark }

/-! ## Flags -/

/-- The layout with a flag, if the byte is one. -/
def flag? (layout : Layout) (byte : UInt8) : Option Layout :=
  match Char.ofNat byte.toNat with
  | '-' => some { layout with left := true }
  | '+' => some { layout with plus := true }
  | '#' => some { layout with alternate := true }
  | ' ' => some { layout with blank := true }
  | '0' => some { layout with zero := true }
  | _ => none

/-- The layout with the flags that a text starts with, and the number of them. -/
def flagsFrom (layout : Layout) (count : Nat) : Bytes → Layout × Nat
  | [] => (layout, count)
  | byte :: rest =>
      match flag? layout byte with
      | some layout => flagsFrom layout (count + 1) rest
      | none => (layout, count)

def readFlags (directive : Directive) : Directive :=
  let (layout, count) := flagsFrom directive.layout 0 directive.rest
  { directive with layout }.skip count

/-! ## Indexes -/

/-- Reads the index of a value, if there is one.  Indexes count from one. -/
def readIndex (values : List Value) (directive : Directive) : Directive :=
  if directive.rest.head? = some 0x5B then
    let (number, count) := bracketed directive.rest
    let behind := { directive with indexed := number.isSome, reordered := true }.skip count
    match number with
    | some (index + 1) =>
        if index < values.length then
          { behind with next := index }
        else
          { behind with sound := false }
    | _ => { behind with sound := false }
  else
    { directive with indexed := false }

/-! ## Width and precision -/

/-- Takes the next value for a size.  Without a value, none is taken. -/
def takeSize (values : List Value) (directive : Directive) : Option Int × Directive :=
  let behind := { directive with indexed := false }
  match values[directive.next]? with
  | none => (none, behind)
  | some value => (Size.ofValue? value, { behind with next := directive.next + 1 })

/-- The layout with a width.  A negative width fills up on the right, and not with
zeros. -/
def withWidth (layout : Layout) (width : Int) : Layout :=
  if width < 0 then
    { layout with width := some width.natAbs, left := true, zero := false }
  else
    { layout with width := some width.natAbs }

/-- Reads the width, if there is one.  An asterisk takes it from the values. -/
def readWidth (values : List Value) (directive : Directive) : Directive :=
  if directive.rest.head? = some 0x2A then
    match takeSize values (directive.skip 1) with
    | (some width, behind) => { behind with layout := withWidth behind.layout width }
    | (none, behind) => behind.remarking "%!(BADWIDTH)"
  else
    match leadingNumber? directive.rest with
    | none => directive.skipAll
    | some (_, 0) => directive
    | some (width, digits) =>
        { directive with
          layout := { directive.layout with width := some width }
          sound := directive.sound && !directive.indexed }.skip digits

/-- Reads the number behind the point.  Without a number it is zero. -/
def readDigits (values : List Value) (directive : Directive) : Directive :=
  if directive.rest.head? = some 0x2A then
    match takeSize values (directive.skip 1) with
    | (some (.ofNat count), behind) =>
        { behind with layout := { behind.layout with precision := some count } }
    | (_, behind) => behind.remarking "%!(BADPREC)"
  else
    match leadingNumber? directive.rest with
    | none => directive.skipAll
    | some (count, digits) =>
        { directive with
          layout := { directive.layout with precision := some count } }.skip digits

/-- Reads the precision, if there is one.  A point at the very end is none. -/
def readPrecision (values : List Value) (directive : Directive) : Directive :=
  if directive.rest.head? = some 0x2E ∧ directive.rest.drop 1 ≠ [] then
    let behind :=
      { directive with sound := directive.sound && !directive.indexed }.skip 1
    (behind.readIndex values).readDigits values
  else
    directive

/-! ## The whole -/

/-- Reads all that stands before the letter of the directive at the front of a
template. -/
def read (values : List Value) (next : Nat) (rest : Bytes) : Directive :=
  let flagged := readFlags { rest, next }
  let sized := ((flagged.readIndex values).readWidth values).readPrecision values
  if sized.indexed then sized else sized.readIndex values

/-- Reads the letter and writes what the directive stands for. -/
def finish (values : List Value) (directive : Directive) : Bytes × Directive :=
  match directive.rest with
  | [] => (directive.remarks ++ utf8 "%!(NOVERB)", directive)
  | first :: rest =>
      let glyph := Glyph.front first rest
      let letter := glyph.shown
      let behind := directive.skip glyph.width
      if letter = '%' then
        (directive.remarks ++ utf8 "%", behind)
      else if !directive.sound then
        (directive.remarks ++ Layout.remark letter (utf8 "BADINDEX"), behind)
      else
        match values[directive.next]? with
        | none => (directive.remarks ++ Layout.remark letter (utf8 "MISSING"), behind)
        | some value =>
            (directive.remarks ++ directive.layout.write letter value,
              { behind with next := directive.next + 1 })

end Directive

end Template

end TriforceScript
