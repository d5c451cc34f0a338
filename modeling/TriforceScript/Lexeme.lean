import TriforceScript.Text.Blank
import TriforceScript.Token

/-!
# Lexemes

A source text is cut from left to right into lexemes.  Each is the longest one
that the text at that place starts with, and together they are the text: what
carries no meaning is a lexeme too and is left out only when tokens are made.
-/

namespace TriforceScript

namespace Lexeme

/-- The classes of lexemes. -/
inductive Class where
  /-- An operator or bracket. -/
  | mark (kind : Token.Kind)
  /-- A text between double quotes. -/
  | string
  /-- A marker and what follows it on the line. -/
  | comment
  /-- Digits, or digits with a point between them. -/
  | number
  /-- A letter or underscore, then letters, underscores and digits. -/
  | word
  /-- What carries no meaning. -/
  | blank
  deriving DecidableEq, Repr

end Lexeme

/-- A piece of a source text. -/
structure Lexeme where
  /-- What the piece is. -/
  cls : Lexeme.Class
  /-- The piece itself. -/
  bytes : Bytes
  deriving DecidableEq, Repr

namespace Lexeme

/-- Whether a byte is a decimal digit. -/
def isDigit (byte : UInt8) : Bool :=
  0x30 ≤ byte && byte ≤ 0x39

/-- Whether a byte may start a word. -/
def isWordStart (byte : UInt8) : Bool :=
  (0x61 ≤ byte && byte ≤ 0x7A) || (0x41 ≤ byte && byte ≤ 0x5A) || byte == 0x5F

/-- Whether a byte may stand in a word. -/
def isWordByte (byte : UInt8) : Bool :=
  isWordStart byte || isDigit byte

/-- The marks of two bytes: `::`, `==`, `=>` and `->`. -/
def pair? (first second : UInt8) : Option Token.Kind :=
  [((0x3A, 0x3A), .typeMark), ((0x3D, 0x3D), .equalsEquals), ((0x3D, 0x3E), .doubleArrow),
    ((0x2D, 0x3E), .arrow)].lookup (first, second)

/-- The marks of one byte: brackets, comma, semicolon and `=`. -/
def single? (byte : UInt8) : Option Token.Kind :=
  [(0x28, .leftParen), (0x29, .rightParen), (0x7B, .leftBrace), (0x7D, .rightBrace),
    (0x5B, .typeOpen), (0x5D, .typeClose), (0x2C, .comma), (0x3B, .semicolon),
    (0x3D, .equals)].lookup byte

/-- Whether a byte that starts no mark carries no meaning by itself: the blanks,
the colon and the minus sign. -/
def isIdle (byte : UInt8) : Bool :=
  byte == Bytes.space || byte == 0x09 || byte == Bytes.carriageReturn ||
    byte == Bytes.lineFeed || byte == 0x3A || byte == 0x2D

/-- Why no lexeme can be cut from the front of a text. -/
inductive Obstacle where
  /-- A glyph that starts none. -/
  | unexpected (glyph : Glyph)
  /-- A quote without a second one.  `bytes` is all the text from there on. -/
  | unterminated (bytes : Bytes)
  deriving DecidableEq, Repr

/-- The lexeme after a slash: a comment behind the marker `/_\`, and otherwise the
slash with the underscore that may follow it. -/
def cutSlash (rest : Bytes) : Lexeme :=
  if rest.take 2 = [0x5F, 0x5C] then
    ⟨.comment, 0x2F :: 0x5F :: 0x5C :: (rest.drop 2).takeWhile (· != Bytes.lineFeed)⟩
  else if rest.take 1 = [0x5F] then
    ⟨.blank, [0x2F, 0x5F]⟩
  else
    ⟨.blank, [0x2F]⟩

/-- The lexeme after a quote: all up to the next quote. -/
def cutString (rest : Bytes) : Except Obstacle Lexeme :=
  if Bytes.quote ∈ rest then
    .ok ⟨.string, Bytes.quote :: rest.takeWhile (· != Bytes.quote) ++ [Bytes.quote]⟩
  else
    .error (.unterminated (Bytes.quote :: rest))

/-- The fraction that a text starts with: a point and at least one digit. -/
def fraction (text : Bytes) : Bytes :=
  match text with
  | point :: digit :: rest =>
      if point = 0x2E ∧ isDigit digit then point :: digit :: rest.takeWhile isDigit else []
  | _ => []

/-- The number that a text with a digit in front starts with. -/
def cutNumber (text : Bytes) : Lexeme :=
  ⟨.number, text.takeWhile isDigit ++ fraction (text.dropWhile isDigit)⟩

/-- The lexeme at the front of the text `first :: rest`. -/
def cut (first : UInt8) (rest : Bytes) : Except Obstacle Lexeme :=
  match rest.head?.bind (pair? first), single? first with
  | some kind, _ => .ok ⟨.mark kind, first :: rest.take 1⟩
  | none, some kind => .ok ⟨.mark kind, [first]⟩
  | none, none =>
      if isIdle first then
        .ok ⟨.blank, [first]⟩
      else if first = 0x2F then
        .ok (cutSlash rest)
      else if first = Bytes.quote then
        cutString rest
      else if isDigit first then
        .ok (cutNumber (first :: rest))
      else if isWordStart first then
        .ok ⟨.word, first :: rest.takeWhile isWordByte⟩
      else
        .error (.unexpected (Glyph.front first rest))

/-- The lexemes of a text whose first `skipped` bytes belong to a lexeme that has
been cut already, and what stops the cutting before the end, if anything does. -/
def cutAfter : Nat → Bytes → List Lexeme × Option Obstacle
  | _, [] => ([], none)
  | skipped + 1, _ :: rest => cutAfter skipped rest
  | 0, first :: rest =>
      match cut first rest with
      | .error obstacle => ([], some obstacle)
      | .ok lexeme =>
          let (lexemes, obstacle) := cutAfter (lexeme.bytes.length - 1) rest
          (lexeme :: lexemes, obstacle)

/-- The lexemes of a text from left to right, and what stops the cutting before
the end, if anything does. -/
def cutAll (text : Bytes) : List Lexeme × Option Obstacle :=
  cutAfter 0 text

/-! ## From lexemes to tokens -/

/-- The category of the token that a lexeme makes, if it makes one. -/
def kind? (lexeme : Lexeme) : Option Token.Kind :=
  match lexeme.cls with
  | .mark kind => some kind
  | .string => some .string
  | .comment => some .comment
  | .number => some .number
  | .word => some (.ofWord lexeme.bytes)
  | .blank => none

/-- The text of the token that a lexeme makes: a string without its quotes, a
comment without its marker and the blanks around it. -/
def text (lexeme : Lexeme) : Bytes :=
  match lexeme.cls with
  | .string => (lexeme.bytes.drop 1).dropLast
  | .comment => Bytes.trim (lexeme.bytes.drop 3)
  | _ => lexeme.bytes

/-- The token that a lexeme makes, if it makes one, when it ends at `pos`. -/
def token? (lexeme : Lexeme) (pos : Position) : Option Token :=
  lexeme.kind?.map fun kind => ⟨kind, lexeme.text, pos⟩

/-- The place behind lexemes that start at `position`. -/
def advance (position : Position) (lexemes : List Lexeme) : Position :=
  lexemes.foldl (fun place lexeme => place.advance lexeme.bytes) position

/-- The tokens that lexemes make when the first of them starts at `position`. -/
def tokens (position : Position) : List Lexeme → List Token
  | [] => []
  | lexeme :: rest =>
      let behind := position.advance lexeme.bytes
      (lexeme.token? behind).toList ++ tokens behind rest

end Lexeme

end TriforceScript
