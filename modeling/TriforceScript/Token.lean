import TriforceScript.Position

/-!
# Tokens

The lexical units of TriforceScript: a kind, a text and the place just behind it.
-/

namespace TriforceScript

namespace Token

/-- The lexical categories. -/
inductive Kind where
  | eof
  | identifier
  | string
  | number
  | comment
  | equals
  | equalsEquals
  | arrow
  | doubleArrow
  | typeMark
  | typeOpen
  | typeClose
  | leftParen
  | rightParen
  | leftBrace
  | rightBrace
  | comma
  | semicolon
  | ifWord
  | writeWord
  /-- A category that no source text has, under its number. -/
  | unknown (code : Int)
  deriving DecidableEq, Repr

namespace Kind

/-- The categories of source texts in the order of their numbers, from zero. -/
def numbered : List Kind :=
  [.eof, .identifier, .string, .number, .comment, .equals, .equalsEquals, .arrow,
    .doubleArrow, .typeMark, .typeOpen, .typeClose, .leftParen, .rightParen,
    .leftBrace, .rightBrace, .comma, .semicolon, .ifWord, .writeWord]

/-- The category with a number. -/
def ofCode (code : Int) : Kind :=
  if code < 0 then .unknown code else numbered.getD code.toNat (.unknown code)

def name : Kind → Bytes
  | .eof => utf8 "EOF"
  | .identifier => utf8 "IDENTIFIER"
  | .string => utf8 "STRING"
  | .number => utf8 "NUMBER"
  | .comment => utf8 "COMMENT"
  | .equals => utf8 "EQUALS"
  | .equalsEquals => utf8 "EQUALS_EQUALS"
  | .arrow => utf8 "ARROW"
  | .doubleArrow => utf8 "DOUBLE_ARROW"
  | .typeMark => utf8 "TYPE_DECL"
  | .typeOpen => utf8 "TYPE_START"
  | .typeClose => utf8 "TYPE_END"
  | .leftParen => utf8 "LPAREN"
  | .rightParen => utf8 "RPAREN"
  | .leftBrace => utf8 "LBRACE"
  | .rightBrace => utf8 "RBRACE"
  | .comma => utf8 "COMMA"
  | .semicolon => utf8 "SEMICOLON"
  | .ifWord => utf8 "IF"
  | .writeWord => utf8 "WRITE"
  | .unknown _ => utf8 "unknown"

/-- The category of a word: `if` and `write` have one of their own. -/
def ofWord (word : Bytes) : Kind :=
  if word = utf8 "if" then
    .ifWord
  else if word = utf8 "write" then
    .writeWord
  else
    .identifier

end Kind

end Token

/-- A lexical unit. -/
structure Token where
  /-- The category. -/
  kind : Token.Kind
  /-- The text, without the quotes of a string and the marker of a comment. -/
  text : Bytes
  /-- The place just behind the unit. -/
  pos : Position
  deriving DecidableEq, Repr

end TriforceScript
