import TriforceScript.Fault
import TriforceScript.Proofs.Scan.Tokens
import TriforceScript.Proofs.Text.Glyphs
import TriforceScript.Text.Lines

/-!
# Places in moved texts

The line of a place counts the line feeds in front of it.  A text that stands further down
has the same lexemes and tokens, each of them further down by as many lines.
-/

namespace TriforceScript

/-! ## Lines are line feeds -/

namespace Glyph

private theorem count_lineFeed_utf8EncodeChar (value : Char) :
    (String.utf8EncodeChar value).count Bytes.lineFeed = if value = '\n' then 1 else 0 := by
  by_cases isLineFeed : value = '\n'
  · subst isLineFeed
    rfl
  · rw [if_neg isLineFeed, List.count_eq_zero]
    intro member
    have code : value.val.toNat = Bytes.lineFeed.toNat :=
      val_of_mem_utf8EncodeChar (by decide) member
    exact isLineFeed (Char.ext (UInt32.toNat_inj.mp code))

theorem le_of_front_eq_stray {first byte : UInt8} {rest : Bytes}
    (isStray : front first rest = .stray byte) : 0x80 ≤ byte := by
  unfold front at isStray
  split at isStray
  · cases isStray
  · rename_i notAscii
    split at isStray
    · cases isStray
    · cases isStray
      exact UInt8.not_lt.mp notAscii

/-- A glyph is read as a line feed exactly if its bytes hold one. -/
theorem count_lineFeed_front (first : UInt8) (rest : Bytes) :
    (front first rest).bytes.count Bytes.lineFeed =
      if front first rest = .char '\n' then 1 else 0 := by
  cases read : front first rest with
  | char value =>
      rw [bytes, count_lineFeed_utf8EncodeChar]
      simp
  | stray byte =>
      have high : 0x80 ≤ byte := le_of_front_eq_stray read
      have other : byte ≠ Bytes.lineFeed := by
        rintro rfl
        exact absurd high (by decide)
      simp [bytes, other]

end Glyph

namespace Position

private theorem line_foldl_step {text : Bytes} {read : List Glyph} (reads : text.ReadAs read)
    (position : Position) :
    (read.foldl step position).line = position.line + text.lineCount := by
  induction reads generalizing position with
  | nil =>
      simp [Bytes.lineCount]
  | @cons first tail behind read bytes _ inductionHypothesis =>
      have counted := Glyph.count_lineFeed_front first (tail ++ behind)
      rw [bytes] at counted
      rw [List.foldl_cons, inductionHypothesis, Bytes.lineCount, Bytes.lineCount,
        List.count_append, counted, step]
      split
      · show position.line + 1 + _ = _
        omega
      · show position.line + _ = _
        omega

/-- The line behind a text is further down by the number of its line feeds. -/
theorem line_advance (position : Position) (text : Bytes) :
    (position.advance text).line = position.line + text.lineCount :=
  line_foldl_step text.readAs_glyphs position

/-- A place some lines further down. -/
def down (lines : Int) (position : Position) : Position :=
  ⟨position.line + lines, position.column⟩

private theorem step_down (lines : Int) (position : Position) (glyph : Glyph) :
    (position.down lines).step glyph = (position.step glyph).down lines := by
  unfold step
  split
  · simp only [down, Position.mk.injEq, and_true]
    omega
  · rfl

private theorem advance_down (lines : Int) (position : Position) (text : Bytes) :
    (position.down lines).advance text = (position.advance text).down lines := by
  unfold advance
  induction text.glyphs generalizing position with
  | nil =>
      rfl
  | cons glyph rest inductionHypothesis =>
      rw [List.foldl_cons, List.foldl_cons, step_down, inductionHypothesis]

end Position

/-! ## Lexemes, tokens and faults -/

/-- A token some lines further down. -/
def Token.down (lines : Int) (token : Token) : Token :=
  { token with pos := token.pos.down lines }

/-- A fault some lines further down. -/
def ScanFault.down (lines : Int) : ScanFault → ScanFault
  | .unexpected glyph line => .unexpected glyph (line + lines)
  | .unterminated line => .unterminated (line + lines)

namespace ScanFault

/-- What a fault says, apart from its line. -/
def wording : ScanFault → Bytes
  | .unexpected glyph _ => utf8 "unexpected character " ++ quoteChar glyph.shown
  | .unterminated _ => utf8 "unterminated string"

theorem message_eq (fault : ScanFault) :
    fault.message = fault.wording ++ utf8 " at line " ++ Bytes.ofInt fault.line := by
  cases fault with
  | unexpected glyph line => rfl
  | unterminated line =>
      have spelled : utf8 "unterminated string at line " = utf8 "unterminated string" ++ utf8 " at line " := by
        decide
      rw [message, spelled]
      rfl

variable (lines : Int) (fault : ScanFault)

private theorem line_down : (fault.down lines).line = fault.line + lines := by
  cases fault <;> rfl

private theorem incomplete_down : (fault.down lines).incomplete = fault.incomplete := by
  cases fault <;> rfl

private theorem wording_down : (fault.down lines).wording = fault.wording := by
  cases fault <;> rfl

end ScanFault

namespace Lexeme

private theorem advance_down (lines : Int) (position : Position) (lexemes : List Lexeme) :
    advance (position.down lines) lexemes = (advance position lexemes).down lines := by
  induction lexemes generalizing position with
  | nil =>
      rfl
  | cons lexeme rest inductionHypothesis =>
      have moved := inductionHypothesis (position.advance lexeme.bytes)
      rw [← Position.advance_down] at moved
      exact moved

private theorem token?_down (lines : Int) (lexeme : Lexeme) (pos : Position) :
    lexeme.token? (pos.down lines) = (lexeme.token? pos).map (Token.down lines) := by
  unfold token?
  rw [Option.map_map]
  rfl

private theorem tokens_down (lines : Int) (position : Position) (lexemes : List Lexeme) :
    tokens (position.down lines) lexemes = (tokens position lexemes).map (Token.down lines) := by
  induction lexemes generalizing position with
  | nil =>
      rfl
  | cons lexeme rest inductionHypothesis =>
      rw [tokens, tokens, Position.advance_down, token?_down, inductionHypothesis,
        List.map_append, Option.toList_map]

private theorem Obstacle.fault_down (lines : Int) (position : Position) (obstacle : Obstacle) :
    obstacle.fault (position.down lines) = (obstacle.fault position).down lines := by
  cases obstacle with
  | unexpected glyph =>
      rw [fault, Position.advance_down]
      rfl
  | unterminated bytes =>
      rw [fault, Position.advance_down]
      rfl

private theorem Cuts.line_advance {text : Bytes} {lexemes : List Lexeme}
    (cuts : Cuts text lexemes none) (position : Position) :
    (advance position lexemes).line = position.line + text.lineCount := by
  generalize whole : (none : Option Obstacle) = ending at cuts
  induction cuts generalizing position with
  | done =>
      simp [advance, Bytes.lineCount]
  | stuck blocked =>
      cases whole
  | @lexeme first tail behind lexeme lexemes _ cutOff bytes _ inductionHypothesis =>
      calc
        (advance position (lexeme :: lexemes)).line
          = (position.advance lexeme.bytes).line + behind.lineCount :=
            inductionHypothesis (position.advance lexeme.bytes) whole
        _ = position.line + Bytes.lineCount (first :: tail) + behind.lineCount := by
            rw [Position.line_advance, bytes]
        _ = position.line + Bytes.lineCount (first :: tail ++ behind) := by
            simp only [Bytes.lineCount, List.count_append]
            omega

section Behind

variable {text : Bytes} {lexemes : List Lexeme} (cuts : Cuts text lexemes none)

include cuts

/-- Behind a text that can be cut and a line feed, the start of a later line is reached: by
one line more than the text has line feeds. -/
theorem Cuts.advance_lineEnd :
    (advance .start lexemes).advance lineEnd.bytes = Position.start.down (1 + text.lineCount) := by
  have reached := cuts.line_advance .start
  show (⟨(advance .start lexemes).line + 1, 1⟩ : Position) = _
  rw [reached]
  simp only [Position.start, Position.down, Position.mk.injEq, and_true]
  omega

private theorem Cuts.advance_line (others : List Lexeme) :
    advance .start (lexemes ++ lineEnd :: others) =
      (advance .start others).down (1 + text.lineCount) := by
  rw [← advance_down, ← cuts.advance_lineEnd, advance, List.foldl_append]
  rfl

private theorem Cuts.tokens_line (others : List Lexeme) :
    tokens .start (lexemes ++ lineEnd :: others) =
      tokens .start lexemes ++ (tokens .start others).map (Token.down (1 + text.lineCount)) := by
  rw [tokens_append, tokens, cuts.advance_lineEnd, tokens_down]
  rfl

end Behind

end Lexeme

/-! ## Scanning at line ends -/

open Lexeme (Cuts Obstacle)

/-- Scanning is compositional at line ends.  Behind a text that can be scanned and a line
feed, a text has the tokens or the fault that it has by itself, further down by one line
more than the text in front has line feeds. -/
theorem scan_append_line {first : Bytes} {tokens : List Token} (scanned : scan first = .ok tokens)
    (second : Bytes) :
    (∀ others, scan second = .ok others →
      scan (first ++ Bytes.lineFeed :: second) =
        .ok (tokens.dropLast ++ others.map (Token.down (1 + first.lineCount)))) ∧
    ∀ fault, scan second = .error fault →
      ∃ later,
        scan (first ++ Bytes.lineFeed :: second) = .error later ∧
        (Fault.scan later).diagnostic =
          { (Fault.scan fault).diagnostic with
            line := fault.line + (1 + first.lineCount)
            cause := some (fault.wording ++ utf8 " at line " ++
              Bytes.ofInt (fault.line + (1 + first.lineCount))) } ∧
        fault.message = fault.wording ++ utf8 " at line " ++ Bytes.ofInt fault.line := by
  obtain ⟨lexemes, cuts, rfl⟩ := Lexeme.exists_cuts_of_scan_eq_ok scanned
  rw [List.dropLast_concat]
  constructor
  · intro others scannedSecond
    obtain ⟨lexemes', cuts', rfl⟩ := Lexeme.exists_cuts_of_scan_eq_ok scannedSecond
    rw [(cuts.append_line cuts').scan_eq_ok, List.map_append, List.map_singleton,
      cuts.tokens_line, List.append_assoc]
    rw [Lexeme.endToken, Lexeme.endToken, cuts.advance_line]
    rfl
  · intro fault failed
    obtain ⟨lexemes', obstacle, cuts', rfl⟩ := Lexeme.exists_cuts_of_scan_eq_error failed
    refine ⟨_, (cuts.append_line cuts').scan_eq_error, ?_, ScanFault.message_eq _⟩
    rw [cuts.advance_line, Lexeme.Obstacle.fault_down, Fault.diagnostic, Fault.message,
      ScanFault.message_eq, ScanFault.wording_down]
    simp only [Fault.line, Fault.incomplete, ScanFault.line_down, ScanFault.incomplete_down]
    rfl

/-- A name and a comment that the text ends in. -/
def remarkedName : Bytes :=
  utf8 "x /_\\ a"

theorem scan_remarkedName_append :
    scan remarkedName =
      .ok [⟨.identifier, utf8 "x", ⟨1, 2⟩⟩, ⟨.comment, utf8 "a", ⟨1, 8⟩⟩, ⟨.eof, [], ⟨1, 8⟩⟩] ∧
    scan (remarkedName ++ Bytes.lineFeed :: utf8 "- y") =
      .ok [⟨.identifier, utf8 "x", ⟨1, 2⟩⟩, ⟨.comment, utf8 "a", ⟨1, 8⟩⟩,
        ⟨.identifier, utf8 "y", ⟨2, 4⟩⟩, ⟨.eof, [], ⟨2, 4⟩⟩] ∧
    ∃ later,
      scan (remarkedName ++ Bytes.lineFeed :: utf8 "\"b\n") = .error later ∧
      (Fault.scan later).diagnostic =
        ⟨some .scan, 3, some (utf8 "unterminated string at line 3"), true⟩ := by
  have scanned :
      scan remarkedName =
        .ok [⟨.identifier, utf8 "x", ⟨1, 2⟩⟩, ⟨.comment, utf8 "a", ⟨1, 8⟩⟩,
          ⟨.eof, [], ⟨1, 8⟩⟩] := rfl
  obtain ⟨later, failed, diagnosed, -⟩ :=
    (scan_append_line scanned (utf8 "\"b\n")).2 (.unterminated 2) rfl
  exact ⟨scanned, (scan_append_line scanned (utf8 "- y")).1 _ rfl, later, failed, diagnosed⟩

end TriforceScript
