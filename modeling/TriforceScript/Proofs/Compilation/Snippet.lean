import TriforceScript.Compilation
import TriforceScript.Proofs.Reader.Run
import TriforceScript.Proofs.Scan.Tokens

/-!
# Snippets

How a snippet comes to its JavaScript text or to its fault: where its cutting ends, how
far its tokens are read, and whether its program can be written.
-/

namespace TriforceScript

open Lexeme (Cuts Obstacle)
open Reader (State)

/-- `Compiles text result` means that `result` comes of compiling the snippet `text`. -/
inductive Compiles (text : Bytes) : Except Fault Bytes → Prop
  /-- The text cannot be cut into lexemes. -/
  | stuck {lexemes : List Lexeme} {obstacle : Obstacle} :
      Cuts text lexemes (some obstacle) →
      Compiles text (.error (.scan (obstacle.fault (Lexeme.advance .start lexemes))))
  /-- Some token is not accepted. -/
  | blocked {lexemes : List Lexeme} {before behind : List Token} {token : Token}
      {reached : State} :
      Cuts text lexemes none →
      Lexeme.tokens .start lexemes = before ++ token :: behind →
      ({} : State).run before = some reached →
      reached.accept? token = none →
      Compiles text (.error (.parse ⟨reached.expected token, token⟩))
  /-- The tokens may not end where they do. -/
  | unfinished {lexemes : List Lexeme} {reached : State} :
      Cuts text lexemes none →
      ({} : State).run (Lexeme.tokens .start lexemes) = some reached →
      reached.program? = none →
      Compiles text (.error (.parse
        ⟨reached.expected (Lexeme.endToken lexemes), Lexeme.endToken lexemes⟩))
  /-- The program has no text. -/
  | unwritable {lexemes : List Lexeme} {reached : State} {program : Program}
      {fault : EmitFault} :
      Cuts text lexemes none →
      ({} : State).run (Lexeme.tokens .start lexemes) = some reached →
      reached.program? = some program →
      JavaScript.statements program = .error fault →
      Compiles text (.error (.emit fault))
  /-- The program has a text. -/
  | code {lexemes : List Lexeme} {reached : State} {program : Program} {code : Bytes} :
      Cuts text lexemes none →
      ({} : State).run (Lexeme.tokens .start lexemes) = some reached →
      reached.program? = some program →
      JavaScript.statements program = .ok code →
      Compiles text (.ok code)

/-- A text that can be cut is read token by token. -/
private theorem compileSnippet_of_cuts {text : Bytes} {lexemes : List Lexeme}
    (cuts : Cuts text lexemes none) :
    compileSnippet text = (do
      let program ←
        (State.read (Lexeme.endToken lexemes) {} (Lexeme.tokens .start lexemes)).result.mapError
          Fault.parse
      (JavaScript.statements program).mapError Fault.emit) := by
  rw [compileSnippet, parse, cuts.scan_eq_ok]
  dsimp only
  rw [readTokens_append_end (cuts.kind_ne_eof .start) rfl]

theorem Compiles.compileSnippet_eq {text : Bytes} {result : Except Fault Bytes}
    (compiles : Compiles text result) : compileSnippet text = result := by
  cases compiles with
  | stuck cuts =>
      rw [compileSnippet, parse, cuts.scan_eq_error]
      rfl
  | @blocked lexemes before behind token reached cuts shape run refused =>
      rw [compileSnippet_of_cuts cuts, shape,
        State.read_of_blocked (Lexeme.endToken lexemes) behind run refused]
      rfl
  | unfinished cuts run unended =>
      rw [compileSnippet_of_cuts cuts, State.read_of_run _ run, State.finish, unended]
      rfl
  | unwritable cuts run ended failed =>
      rw [compileSnippet_of_cuts cuts, State.read_of_run _ run, State.finish, ended]
      show (JavaScript.statements _).mapError Fault.emit = _
      rw [failed]
      rfl
  | code cuts run ended written =>
      rw [compileSnippet_of_cuts cuts, State.read_of_run _ run, State.finish, ended]
      show (JavaScript.statements _).mapError Fault.emit = _
      rw [written]
      rfl

theorem exists_compiles (text : Bytes) : ∃ result, Compiles text result := by
  have cuts := Lexeme.cuts_cutAll text
  generalize (Lexeme.cutAll text).1 = lexemes at cuts
  generalize (Lexeme.cutAll text).2 = ending at cuts
  cases ending with
  | some obstacle => exact ⟨_, .stuck cuts⟩
  | none =>
      cases run : ({} : State).run (Lexeme.tokens .start lexemes) with
      | none =>
          obtain ⟨before, token, behind, reached, shape, runBefore, refused⟩ :=
            State.exists_blocked run
          exact ⟨_, .blocked cuts shape runBefore refused⟩
      | some reached =>
          cases ended : reached.program? with
          | none => exact ⟨_, .unfinished cuts run ended⟩
          | some program =>
              cases written : JavaScript.statements program with
              | error fault => exact ⟨_, .unwritable cuts run ended written⟩
              | ok code => exact ⟨_, .code cuts run ended written⟩

/-- What comes of a snippet comes of it in one of these ways. -/
theorem compileSnippet_eq_iff {text : Bytes} {result : Except Fault Bytes} :
    compileSnippet text = result ↔ Compiles text result := by
  constructor
  · rintro rfl
    obtain ⟨result, compiles⟩ := exists_compiles text
    rw [compiles.compileSnippet_eq]
    exact compiles
  · exact Compiles.compileSnippet_eq

theorem exists_scan_of_code {text code : Bytes} (compiled : compileSnippet text = .ok code) :
    ∃ tokens, scan text = .ok tokens := by
  cases compileSnippet_eq_iff.mp compiled with
  | code cuts run ended written => exact ⟨_, cuts.scan_eq_ok⟩

end TriforceScript
