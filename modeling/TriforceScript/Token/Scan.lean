import TriforceScript.Lexeme
import TriforceScript.Text.Quoted

/-!
# Scanning

A source text becomes the tokens that its lexemes make, and one token at its end.
-/

namespace TriforceScript

/-- Why a source text has no tokens. -/
inductive ScanFault where
  /-- A glyph that starts no lexeme. -/
  | unexpected (glyph : Glyph) (line : Int)
  /-- A string that the text ends in. -/
  | unterminated (line : Int)
  deriving DecidableEq, Repr

namespace ScanFault

/-- The line where the scan came to its end. -/
def line : ScanFault → Int
  | .unexpected _ line => line
  | .unterminated line => line

/-- Whether more text could mend the fault. -/
def incomplete : ScanFault → Bool
  | .unexpected _ _ => false
  | .unterminated _ => true

def message : ScanFault → Bytes
  | .unexpected glyph line =>
      utf8 "unexpected character " ++ quoteChar glyph.shown ++ utf8 " at line " ++
        Bytes.ofInt line
  | .unterminated line => utf8 "unterminated string at line " ++ Bytes.ofInt line

end ScanFault

/-- The fault of a text whose cutting stops at `position`. -/
def Lexeme.Obstacle.fault (position : Position) : Lexeme.Obstacle → ScanFault
  | .unexpected glyph => .unexpected glyph (position.advance glyph.bytes).line
  | .unterminated bytes => .unterminated (position.advance bytes).line

/-- The tokens of a source text, the last of them for its end. -/
def scan (source : Bytes) : Except ScanFault (List Token) :=
  match Lexeme.cutAll source with
  | (lexemes, none) =>
      .ok (Lexeme.tokens .start lexemes ++ [⟨.eof, [], Lexeme.advance .start lexemes⟩])
  | (lexemes, some obstacle) =>
      .error (obstacle.fault (Lexeme.advance .start lexemes))

end TriforceScript
