import TriforceScript.Proofs.Compilation.Snippet
import TriforceScript.Proofs.Grammar.Soundness
import TriforceScript.Proofs.JavaScript.Derived
import TriforceScript.Proofs.Reader.Persistence

/-!
# Final faults

A fault of whole lines that is not for want of more text is final: nothing that follows
the lines can mend it.  An unexpected glyph and a token that is not accepted are found
again, whatever follows, and an expression by itself stays one.
-/

namespace TriforceScript

open Lexeme (Cuts Obstacle)
open Reader (State Spoiled)

/-! ## Programs without text -/

namespace Reader

/-- Where a program without a text may end, no program with a text goes on. -/
private theorem spoiled_of_error {tokens : List Token} {reached : State} {program : Program}
    (run : ({} : State).run tokens = some reached) (ended : reached.program? = some program)
    (failed : ∃ fault, JavaScript.statements program = .error fault) : Spoiled reached := by
  have outcome : ({} : State).outcome? tokens = some program := by
    rw [State.outcome?, run, Option.bind_some, ended]
  obtain ⟨derivation, -, rfl⟩ := Grammar.exists_derivation outcome
  rw [JavaScript.exists_error_statements_iff] at failed
  obtain ⟨tree, member, unwritable⟩ := failed
  have settled : tree ∈ reached.settle.statements := by
    rw [← (State.program?_eq_some_iff.mp ended).2.2] at member
    exact List.mem_reverse.mp member
  rcases reached.settle_cases with same | ⟨purpose, compared, joined, statement, stage,
    completed, pushed⟩
  · rw [same] at settled
    exact .inl (.inl ⟨tree, settled, unwritable⟩)
  · rw [pushed] at settled
    rcases List.mem_cons.mp settled with rfl | before
    · -- The statement under way is the one without a text.
      obtain ⟨source, rfl⟩ := Grammar.Statement.exists_of_mem_allNodes member
      have kind := Grammar.Statement.kind?_of_unwritable unwritable
      cases purpose with
      | declaration name type pos =>
          rw [← Option.some.inj completed] at kind
          simp [Node.kind?] at kind
      | assignment name pos =>
          rw [← Option.some.inj completed] at kind
          simp [Node.kind?] at kind
      | statement =>
          refine .inr ?_
          rw [stage]
          exact .operator compared joined
      | condition pos =>
          cases completed
      | argument others pos =>
          cases completed
    · exact .inl (.inl ⟨tree, before, unwritable⟩)

end Reader

/-! ## What follows whole lines -/

section Behind

variable {text : Bytes} {lexemes : List Lexeme} (lines : text.WholeLines)

include lines

private theorem compileSnippet_append_of_stuck {obstacle : Obstacle}
    (cuts : Cuts text lexemes (some obstacle))
    (final : (obstacle.fault (Lexeme.advance .start lexemes)).incomplete = false)
    (more : Bytes) :
    compileSnippet (text ++ more) =
      .error (.scan (obstacle.fault (Lexeme.advance .start lexemes))) := by
  cases obstacle with
  | unexpected glyph =>
      exact (Compiles.stuck (cuts.append_of_unexpected lines more)).compileSnippet_eq
  | unterminated unread =>
      cases final

/-- Lexemes of whole lines are the first ones of any longer text that can be scanned. -/
private theorem exists_cuts_append (cuts : Cuts text lexemes none) {more : Bytes}
    {tokens : List Token} (scanned : scan (text ++ more) = .ok tokens) :
    ∃ others, Cuts (text ++ more) (lexemes ++ others) none := by
  have cutsAll := cuts.append lines (Lexeme.cuts_cutAll more)
  generalize (Lexeme.cutAll more).2 = ending at cutsAll
  cases ending with
  | none => exact ⟨_, cutsAll⟩
  | some obstacle =>
      rw [cutsAll.scan_eq_error] at scanned
      cases scanned

private theorem compileSnippet_append_of_blocked {before behind : List Token} {token : Token}
    {reached : State} (cuts : Cuts text lexemes none)
    (shape : Lexeme.tokens .start lexemes = before ++ token :: behind)
    (run : ({} : State).run before = some reached) (refused : reached.accept? token = none)
    {more : Bytes} {tokens : List Token} (scanned : scan (text ++ more) = .ok tokens) :
    compileSnippet (text ++ more) = .error (.parse ⟨reached.expected token, token⟩) := by
  obtain ⟨others, cutsAll⟩ := exists_cuts_append lines cuts scanned
  have shapeAll :
      Lexeme.tokens .start (lexemes ++ others) =
        before ++ token ::
          (behind ++ Lexeme.tokens (Lexeme.advance .start lexemes) others) := by
    rw [Lexeme.tokens_append, shape, List.append_assoc, List.cons_append]
  exact (Compiles.blocked cutsAll shapeAll run refused).compileSnippet_eq

private theorem compileSnippet_append_of_unwritable {reached : State} {program : Program}
    {fault : EmitFault} (cuts : Cuts text lexemes none)
    (run : ({} : State).run (Lexeme.tokens .start lexemes) = some reached)
    (ended : reached.program? = some program)
    (failed : JavaScript.statements program = .error fault) (more code : Bytes) :
    compileSnippet (text ++ more) ≠ .ok code := by
  intro compiled
  cases compileSnippet_eq_iff.mp compiled with
  | @code lexemes' reached' program' code cuts' run' ended' written =>
      obtain ⟨others, cutsAll⟩ := exists_cuts_append lines cuts cuts'.scan_eq_ok
      obtain ⟨rfl, -⟩ := cuts'.unique cutsAll
      rw [Lexeme.tokens_append, State.run_append_of_run run] at run'
      have spoiled : Spoiled reached' :=
        Reader.spoiled_run (Reader.spoiled_of_error run ended ⟨fault, failed⟩) run'
      obtain ⟨later, failed'⟩ := Reader.exists_error_of_spoiled spoiled ended'
      rw [failed'] at written
      cases written

end Behind

/-- A fault of whole lines that more text could not mend is final.  The lines have a fault
whatever follows them: the same one if it was found in scanning, and the same one if it
was found in reading and the longer text can be scanned. -/
theorem compileSnippet_append_of_final {text : Bytes} {fault : Fault}
    (ends : text.getLast? = some Bytes.lineFeed) (failed : compileSnippet text = .error fault)
    (final : fault.incomplete = false) (more : Bytes) :
    (∃ later, compileSnippet (text ++ more) = .error later) ∧
    (fault.step = .scan → compileSnippet (text ++ more) = .error fault) ∧
    (fault.step = .parse → (∃ tokens, scan (text ++ more) = .ok tokens) →
      compileSnippet (text ++ more) = .error fault) := by
  have lines : text.WholeLines := Bytes.wholeLines_of_getLast? ends
  have failsLater (noCode : ∀ code, compileSnippet (text ++ more) ≠ .ok code) :
      ∃ later, compileSnippet (text ++ more) = .error later := by
    cases result : compileSnippet (text ++ more) with
    | error later => exact ⟨later, rfl⟩
    | ok code => exact (noCode code result).elim
  cases compileSnippet_eq_iff.mp failed with
  | stuck cuts =>
      have again := compileSnippet_append_of_stuck lines cuts final more
      exact ⟨⟨_, again⟩, fun _ => again, fun _ _ => again⟩
  | blocked cuts shape run refused =>
      have again {tokens : List Token} (scanned : scan (text ++ more) = .ok tokens) :=
        compileSnippet_append_of_blocked lines cuts shape run refused scanned
      refine ⟨failsLater ?_, by simp [Fault.step], ?_⟩
      · intro code compiled
        obtain ⟨tokens, scanned⟩ := exists_scan_of_code compiled
        rw [again scanned] at compiled
        cases compiled
      · rintro - ⟨tokens, scanned⟩
        exact again scanned
  | unfinished cuts run unended =>
      cases final
  | unwritable cuts run ended unwritten =>
      refine ⟨failsLater ?_, by simp [Fault.step], by simp [Fault.step]⟩
      exact compileSnippet_append_of_unwritable lines cuts run ended unwritten more

/-- A line with a parenthesis that closes nothing. -/
def closedLine : Bytes :=
  utf8 "x )\n"

/-- The fault of that line. -/
def closedFault : Fault :=
  .parse ⟨.expression, ⟨.rightParen, utf8 ")", ⟨1, 4⟩⟩⟩

theorem compileSnippet_closedLine_append :
    closedLine.getLast? = some Bytes.lineFeed ∧
    compileSnippet closedLine = .error closedFault ∧
    closedFault.incomplete = false ∧
    (∃ tokens, scan (closedLine ++ utf8 "y -> \"b\"\n") = .ok tokens) ∧
    compileSnippet (closedLine ++ utf8 "y -> \"b\"\n") = .error closedFault := by
  have scanned : ∃ tokens, scan (closedLine ++ utf8 "y -> \"b\"\n") = .ok tokens :=
    ⟨_, rfl⟩
  have closedEnds : closedLine.getLast? = some Bytes.lineFeed := rfl
  have closedFails : compileSnippet closedLine = .error closedFault := rfl
  have final := compileSnippet_append_of_final closedEnds closedFails rfl
    (utf8 "y -> \"b\"\n")
  exact ⟨closedEnds, closedFails, rfl, scanned, final.2.2 rfl scanned⟩

end TriforceScript
