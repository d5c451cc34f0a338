import TriforceScript.Proofs.Session.Batch
import TriforceScript.Proofs.Text.Lines
import TriforceScript.Proofs.Text.Numbers
import TriforceScript.Session.Prompted

/-!
# Sessions with and without prompts

A session with prompts adds a line feed to every line it is given, also to a last one that
had none.  That changes neither the code of a chunk nor a fault that is final, so both kinds
of sessions tell the same about the same input.  They differ at its end only: a chunk that
is still incomplete is reported by one and forgotten by the other.
-/

namespace TriforceScript

open Lexeme (Cuts)
open Reader (State)

/-! ## A line feed behind a chunk -/

private theorem Lexeme.tokens_lineEnd (position : Position) (lexemes : List Lexeme) :
    tokens position (lexemes ++ [lineEnd]) = tokens position lexemes := by
  rw [tokens_append]
  exact List.append_nil _

/-- A line feed behind a snippet changes at most the line of a fault that more text could
mend. -/
theorem compileSnippet_append_lineFeed (chunk : Bytes) :
    compileSnippet (chunk ++ [Bytes.lineFeed]) = compileSnippet chunk ∨
    ∃ fault later,
      compileSnippet chunk = .error fault ∧ fault.incomplete = true ∧
      compileSnippet (chunk ++ [Bytes.lineFeed]) = .error later ∧ later.incomplete = true := by
  obtain ⟨result, compiles⟩ := exists_compiles chunk
  have same := Lexeme.tokens_lineEnd .start
  rw [compiles.compileSnippet_eq]
  cases compiles with
  | @stuck lexemes obstacle cuts =>
      cases obstacle with
      | unexpected glyph =>
          have again := Compiles.stuck (cuts.append_line_of_unexpected [])
          exact .inl again.compileSnippet_eq
      | unterminated unread =>
          have again := Compiles.stuck cuts.append_line_of_unterminated
          exact .inr ⟨_, _, rfl, rfl, again.compileSnippet_eq, rfl⟩
  | @blocked lexemes before behind token reached cuts shape run refused =>
      have again := Compiles.blocked (cuts.append_line .done) ((same lexemes).trans shape) run refused
      exact .inl again.compileSnippet_eq
  | @unfinished lexemes reached cuts run unended =>
      have runAgain := (congrArg ({} : State).run (same lexemes)).trans run
      have again := Compiles.unfinished (cuts.append_line .done) runAgain unended
      exact .inr ⟨_, _, rfl, rfl, again.compileSnippet_eq, rfl⟩
  | @unwritable lexemes reached program fault cuts run ended failed =>
      have runAgain := (congrArg ({} : State).run (same lexemes)).trans run
      have again := Compiles.unwritable (cuts.append_line .done) runAgain ended failed
      exact .inl again.compileSnippet_eq
  | @code lexemes reached program code cuts run ended written =>
      have runAgain := (congrArg ({} : State).run (same lexemes)).trans run
      have again := Compiles.code (cuts.append_line .done) runAgain ended written
      exact .inl again.compileSnippet_eq

private theorem lineFeed_notMem_ofInt (number : Int) : Bytes.lineFeed ∉ Bytes.ofInt number := by
  intro member
  have visible := Bytes.space_le_of_mem_ofInt member
  exact absurd visible (by decide)

/-- A fault that more text could mend is told in one line. -/
private theorem lineFeed_notMem_of_incomplete {chunk : Bytes} {fault : Fault}
    (failed : compileSnippet chunk = .error fault) (incomplete : fault.incomplete = true) :
    Bytes.lineFeed ∉ fault.message := by
  cases compileSnippet_eq_iff.mp failed with
  | @stuck lexemes obstacle cuts =>
      cases obstacle with
      | unexpected glyph => cases incomplete
      | unterminated unread =>
          simp +decide [Fault.message, Lexeme.Obstacle.fault, ScanFault.message,
            lineFeed_notMem_ofInt]
  | @blocked lexemes before behind token reached cuts shape run refused =>
      have proper : token.kind ≠ .eof := by
        apply cuts.kind_ne_eof .start
        rw [shape]
        exact List.mem_append_right before (List.mem_cons_self)
      simp [Fault.incomplete, ParseFault.incomplete, proper] at incomplete
  | @unfinished lexemes reached cuts run unended =>
      have wording (expected : Expectation) : Bytes.lineFeed ∉ expected.message := by
        cases expected <;> decide
      simp +decide [Fault.message, ParseFault.message, ParseFault.line, Lexeme.endToken, wording,
        lineFeed_notMem_ofInt]
  | unwritable cuts run ended failed => cases incomplete

/-- Whether a chunk has a fault that more text could mend. -/
def Bytes.Incomplete (chunk : Bytes) : Prop :=
  ∃ fault, compileSnippet chunk = .error fault ∧ fault.incomplete = true

namespace Session

/-- A line feed behind a chunk that will not grow any more changes nothing that is told about
it, unless the chunk is incomplete and the line feed keeps it open. -/
theorem answer_append_lineFeed (chunk : Bytes) :
    ((answer (chunk ++ [Bytes.lineFeed])).2 = [] ∧
      (answer (chunk ++ [Bytes.lineFeed])).1.out = (answerFinal chunk).out ∧
      (answer (chunk ++ [Bytes.lineFeed])).1.err false = (answerFinal chunk).err false) ∨
    ∃ fault,
      compileSnippet chunk = .error fault ∧ fault.incomplete = true ∧
      answer (chunk ++ [Bytes.lineFeed]) = (.silent, chunk ++ [Bytes.lineFeed]) := by
  rcases compileSnippet_append_lineFeed chunk with
    same | ⟨fault, later, failed, incomplete, failedLater, incompleteLater⟩
  · cases compiled : compileSnippet chunk with
    | ok code =>
        rw [compiled] at same
        simp [answer, answerFinal, same, compiled, Reply.out, Reply.err]
    | error fault =>
        rw [compiled] at same
        by_cases incomplete : fault.incomplete = true
        · exact .inr ⟨fault, rfl, incomplete, by simp [answer, same, incomplete]⟩
        · simp [answer, answerFinal, same, compiled, incomplete, Reply.out, Reply.err]
  · exact .inr ⟨fault, failed, incomplete, by simp [answer, failedLater, incompleteLater]⟩

namespace Prompted

/-! ## Turns -/

/-- A prompt, and what the session tells after the line that it asks for. -/
structure Turn where
  prompt : Bytes
  reply : Reply

/-- The turns of a session in which the lines `pending` wait for an answer. -/
def turnsFrom : Bytes → List Bytes → List Turn
  | _, [] => []
  | pending, line :: lines =>
      let (reply, kept) := answer (pending ++ line ++ utf8 "\n")
      ⟨prompt pending, reply⟩ :: turnsFrom kept lines

/-- The lines that still wait for an answer behind some more lines. -/
def pendingFrom : Bytes → List Bytes → Bytes
  | pending, [] => pending
  | pending, line :: lines => pendingFrom (answer (pending ++ line ++ utf8 "\n")).2 lines

/-- What a session shows to whoever answers its prompts: the prompts, what it tells in its
turns, one more prompt and a line feed for the end of the input. -/
theorem out_runFrom (colours : Bool) (pending : Bytes) (history : History) (lines : List Bytes) :
    (runFrom colours .eof pending history lines).out =
      (turnsFrom pending lines).flatMap (fun turn => turn.prompt ++ turn.reply.out) ++
        prompt (pendingFrom pending lines) ++ utf8 "\n" := by
  induction lines generalizing pending history with
  | nil =>
      rfl
  | cons line rest inductionHypothesis =>
      simp only [runFrom, turnsFrom, pendingFrom, inductionHypothesis, List.flatMap_cons,
        List.append_assoc]

private theorem err_runFrom (colours : Bool) (pending : Bytes) (history : History)
    (lines : List Bytes) :
    (runFrom colours .eof pending history lines).err =
      (turnsFrom pending lines).flatMap fun turn => turn.reply.err colours := by
  induction lines generalizing pending history with
  | nil =>
      rfl
  | cons line rest inductionHypothesis =>
      simp only [runFrom, turnsFrom, inductionHypothesis, List.flatMap_cons]

theorem turnsFrom_append (pending : Bytes) (first second : List Bytes) :
    turnsFrom pending (first ++ second) =
      turnsFrom pending first ++ turnsFrom (pendingFrom pending first) second := by
  induction first generalizing pending with
  | nil =>
      rfl
  | cons line rest inductionHypothesis =>
      simp only [List.cons_append, turnsFrom, pendingFrom, inductionHypothesis]

theorem pendingFrom_append (pending : Bytes) (first second : List Bytes) :
    pendingFrom pending (first ++ second) = pendingFrom (pendingFrom pending first) second := by
  induction first generalizing pending with
  | nil =>
      rfl
  | cons line rest inductionHypothesis =>
      simp only [List.cons_append, pendingFrom, inductionHypothesis]

/-! ## Lines that wait for an answer -/

/-- What an answer keeps is nothing, or the whole of a chunk that is incomplete. -/
private theorem kept_answer (chunk : Bytes) :
    (answer chunk).2 = [] ∨ (answer chunk).2 = chunk ∧ chunk.Incomplete := by
  unfold answer
  cases compiled : compileSnippet chunk with
  | ok text => exact .inl rfl
  | error fault =>
      by_cases incomplete : fault.incomplete = true
      · exact .inr ⟨congrArg Prod.snd (if_pos incomplete), fault, compiled, incomplete⟩
      · exact .inl (congrArg Prod.snd (if_neg incomplete))

private theorem incomplete_pendingFrom {pending : Bytes} (waits : pending = [] ∨ pending.Incomplete)
    (lines : List Bytes) :
    pendingFrom pending lines = [] ∨ (pendingFrom pending lines).Incomplete := by
  induction lines generalizing pending with
  | nil =>
      exact waits
  | cons line rest inductionHypothesis =>
      apply inductionHypothesis
      rcases kept_answer (pending ++ line ++ utf8 "\n") with nothing | ⟨whole, incomplete⟩
      · exact .inl nothing
      · rw [whole]
        exact .inr incomplete

section WholeLines

variable {lines : List Bytes}
  (whole : ∀ line ∈ lines, line.getLast? = some Bytes.lineFeed ∧ Bytes.carriageReturn ∉ line)

include whole

/-- The line feed that a session with prompts adds is the one that its line came with. -/
private theorem chomp_append_of_mem {line : Bytes} (member : line ∈ lines) (pending : Bytes) :
    pending ++ line.chomp ++ utf8 "\n" = pending ++ line := by
  obtain ⟨ends, noReturn⟩ := whole line member
  rw [List.append_assoc]
  exact congrArg (pending ++ ·) (Bytes.chomp_append_lineFeed ends noReturn)

private theorem pendingFrom_isSuffix (pending : Bytes) :
    pendingFrom pending (lines.map Bytes.chomp) <:+ pending ++ lines.flatten := by
  induction lines generalizing pending with
  | nil =>
      rw [List.flatten_nil, List.append_nil]
      exact List.suffix_refl pending
  | cons line rest inductionHypothesis =>
      have restWhole := (List.forall_mem_cons.mp whole).2
      rw [List.map_cons, pendingFrom, chomp_append_of_mem whole (List.mem_cons_self),
        List.flatten_cons]
      rcases kept_answer (pending ++ line) with nothing | ⟨kept, -⟩
      · rw [nothing, ← List.append_assoc]
        exact (inductionHypothesis restWhole []).trans (List.suffix_append _ _)
      · rw [kept, ← List.append_assoc]
        exact inductionHypothesis restWhole (pending ++ line)

/-- On whole lines, both kinds of sessions give the same replies. -/
theorem repliesFrom_eq (remainder pending : Bytes) :
    Buffered.repliesFrom .eof remainder pending lines =
      (turnsFrom pending (lines.map Bytes.chomp)).map Turn.reply ++
        [Buffered.last .eof (pendingFrom pending (lines.map Bytes.chomp)) remainder] := by
  induction lines generalizing pending with
  | nil =>
      rfl
  | cons line rest inductionHypothesis =>
      have restWhole := (List.forall_mem_cons.mp whole).2
      have sameChunk := chomp_append_of_mem whole (List.mem_cons_self) pending
      simp only [Buffered.repliesFrom_cons, List.map_cons, turnsFrom, pendingFrom, sameChunk,
        List.cons_append, inductionHypothesis restWhole]

end WholeLines

/-! ## The end of the input -/

/-- What a last line without a line feed is among lines: a line unless it is empty. -/
def lastLines (remainder : Bytes) : List Bytes :=
  if remainder = [] then [] else [remainder]

/-- `Reports chunk told kept later` means that an incomplete chunk is reported at the end of
the input by a session that has told `later`, and is `kept` in vain by one that has told
no more than `told`. -/
structure Reports (chunk kept told later : Bytes) : Prop where
  left : kept = chunk ∨ kept = chunk ++ [Bytes.lineFeed]
  reported :
    ∃ fault,
      compileSnippet chunk = .error fault ∧ fault.incomplete = true ∧
      later = told ++ (utf8 "error: " ++ fault.message ++ [Bytes.lineFeed])

private theorem Reports.append_left {chunk kept told later : Bytes}
    (reports : Reports chunk kept told later)
    (before : Bytes) : Reports chunk kept (before ++ told) (before ++ later) := by
  obtain ⟨left, fault, failed, incomplete, rfl⟩ := reports
  exact ⟨left, fault, failed, incomplete, (List.append_assoc _ _ _).symm⟩

private theorem incomplete_ne_nil {chunk : Bytes} (incomplete : chunk.Incomplete) : chunk ≠ [] := by
  rintro rfl
  obtain ⟨fault, failed, -⟩ := incomplete
  cases failed

section End

variable {pending : Bytes} (waits : pending = [] ∨ pending.Incomplete) (remainder : Bytes)

private theorem last_of_ne_nil (nonempty : pending ++ remainder ≠ []) :
    Buffered.last .eof pending remainder = answerFinal (pending ++ remainder) := by
  have notBoth : ¬(pending = [] ∧ remainder = []) := by
    rintro ⟨rfl, rfl⟩
    exact nonempty rfl
  exact if_neg notBoth

private theorem err_answerFinal {chunk : Bytes} {fault : Fault}
    (failed : compileSnippet chunk = .error fault) :
    (answerFinal chunk).out = [] ∧
    (answerFinal chunk).err false = utf8 "error: " ++ fault.message ++ [Bytes.lineFeed] := by
  rw [answerFinal, failed]
  exact ⟨rfl, rfl⟩

include waits

/-- At the end of the input the two kinds of sessions tell the same, or an incomplete chunk
is reported by one of them only. -/
private theorem last_agrees :
    (turnsFrom pending (lastLines remainder)).flatMap (fun turn => turn.reply.out) =
      (Buffered.last .eof pending remainder).out ∧
    (pendingFrom pending (lastLines remainder) = [] ∧
        (turnsFrom pending (lastLines remainder)).flatMap (fun turn => turn.reply.err false) =
          (Buffered.last .eof pending remainder).err false ∨
      Reports (pending ++ remainder) (pendingFrom pending (lastLines remainder))
        ((turnsFrom pending (lastLines remainder)).flatMap fun turn => turn.reply.err false)
        ((Buffered.last .eof pending remainder).err false)) := by
  by_cases empty : remainder = []
  · subst empty
    rcases waits with rfl | incomplete
    · exact ⟨rfl, .inl ⟨rfl, rfl⟩⟩
    · obtain ⟨fault, failed, isIncomplete⟩ := id incomplete
      rw [last_of_ne_nil [] (by simpa using incomplete_ne_nil incomplete), List.append_nil]
      obtain ⟨noCode, told⟩ := err_answerFinal failed
      rw [noCode, told]
      exact ⟨rfl, .inr ⟨.inl rfl, fault, failed, isIncomplete, rfl⟩⟩
  · have nonempty : pending ++ remainder ≠ [] := by
      simp [empty]
    have turns :
        turnsFrom pending (lastLines remainder) =
          [⟨prompt pending, (answer (pending ++ remainder ++ utf8 "\n")).1⟩] := by
      rw [lastLines, if_neg empty]
      rfl
    have kept :
        pendingFrom pending (lastLines remainder) =
          (answer (pending ++ remainder ++ utf8 "\n")).2 := by
      rw [lastLines, if_neg empty]
      rfl
    rw [turns, kept, last_of_ne_nil remainder nonempty, List.flatMap_singleton,
      List.flatMap_singleton]
    rcases answer_append_lineFeed (pending ++ remainder) with
      ⟨nothing, sameOut, sameErr⟩ | ⟨fault, failed, incomplete, silent⟩
    · exact ⟨sameOut, .inl ⟨nothing, sameErr⟩⟩
    · obtain ⟨noCode, told⟩ := err_answerFinal failed
      change answer (pending ++ remainder ++ utf8 "\n") = _ at silent
      rw [silent, noCode, told]
      exact ⟨rfl, .inr ⟨.inr rfl, fault, failed, incomplete, rfl⟩⟩

end End

/-! ## Whole sessions -/

/-- The turns of a session on lines. -/
def turns (lines : List Bytes) : List Turn :=
  turnsFrom [] lines

/-- What is left without an answer at the end of a session on lines. -/
def unanswered (lines : List Bytes) : Bytes :=
  pendingFrom [] lines

section Input

variable {input : Bytes} (noReturn : Bytes.carriageReturn ∉ input)

include noReturn

private theorem whole_splitLines :
    ∀ line ∈ input.splitLines.1,
      line.getLast? = some Bytes.lineFeed ∧ Bytes.carriageReturn ∉ line := by
  intro line member
  refine ⟨Bytes.getLast?_of_mem_splitLines member, ?_⟩
  intro inLine
  have inInput : Bytes.carriageReturn ∈ input.splitLines.1.flatten ++ input.splitLines.2 :=
    List.mem_append_left _ (List.mem_flatten.mpr ⟨line, member, inLine⟩)
  rw [Bytes.splitLines_flatten] at inInput
  exact noReturn inInput

private theorem turns_agree :
    (turns input.textLines).flatMap (fun turn => turn.reply.out) = Buffered.out input .eof ∧
    (unanswered input.textLines = [] ∧
        (turns input.textLines).flatMap (fun turn => turn.reply.err false) =
          Buffered.err input .eof ∨
      ∃ chunk, chunk <:+ input ∧
        Reports chunk (unanswered input.textLines)
          ((turns input.textLines).flatMap fun turn => turn.reply.err false)
          (Buffered.err input .eof)) := by
  have whole := whole_splitLines noReturn
  have lines :
      input.textLines = input.splitLines.1.map Bytes.chomp ++ lastLines input.splitLines.2 := rfl
  have suffixed := pendingFrom_isSuffix whole []
  have waits := incomplete_pendingFrom (.inl rfl) (input.splitLines.1.map Bytes.chomp)
  obtain ⟨sameOut, sameErr⟩ := last_agrees waits input.splitLines.2
  rw [turns, unanswered, lines, turnsFrom_append, pendingFrom_append, Buffered.out, Buffered.err,
    Buffered.replies, repliesFrom_eq whole]
  simp only [List.flatMap_append, List.flatMap_map, List.flatMap_singleton, sameOut, true_and]
  rcases sameErr with ⟨nothing, told⟩ | reports
  · exact .inl ⟨nothing, by rw [told]⟩
  · refine .inr ⟨_, ?_, reports.append_left _⟩
    -- The lines that wait stand at the end of all whole lines, in front of the last one.
    obtain ⟨before, shape⟩ := suffixed
    refine ⟨before, ?_⟩
    rw [← List.append_assoc, shape, List.nil_append, Bytes.splitLines_flatten]

end Input

/-- A session with prompts and one without agree on every input without carriage returns.
Besides its prompts and the line feed at the end of the input, the first writes to the
standard output what the second writes.  The standard error is the same, except that an
incomplete chunk at the end of the input has its fault reported, in one last line, by the
second only.  A window that all lines fit into does not change the session. -/
theorem run_agrees_with_buffered (input : Bytes) (noReturn : Bytes.carriageReturn ∉ input)
    (history : History) :
    (run false history input.textLines .eof).out =
      (turns input.textLines).flatMap (fun turn => turn.prompt ++ turn.reply.out) ++
        prompt (unanswered input.textLines) ++ utf8 "\n" ∧
    (turns input.textLines).flatMap (fun turn => turn.reply.out) = Buffered.out input .eof ∧
    (unanswered input.textLines = [] →
      Buffered.err input .eof = (run false history input.textLines .eof).err) ∧
    (unanswered input.textLines ≠ [] →
      ∃ chunk fault,
        chunk <:+ input ∧
        (unanswered input.textLines = chunk ∨
          unanswered input.textLines = chunk ++ [Bytes.lineFeed]) ∧
        compileSnippet chunk = .error fault ∧ fault.incomplete = true ∧
        Bytes.lineFeed ∉ fault.message ∧
        Buffered.err input .eof =
          (run false history input.textLines .eof).err ++
            (utf8 "error: " ++ fault.message ++ [Bytes.lineFeed])) ∧
    ∀ limit, input.Fits limit →
      runOn false history limit input .eof = run false history input.textLines .eof := by
  obtain ⟨sameOut, sameErr⟩ := turns_agree noReturn
  have told := err_runFrom false [] history input.textLines
  refine ⟨out_runFrom false [] history input.textLines, sameOut, ?_, ?_, ?_⟩
  · intro answered
    rcases sameErr with ⟨-, same⟩ | ⟨chunk, -, left, fault, failed, incomplete, -⟩
    · exact same.symm.trans told.symm
    · have nonempty := incomplete_ne_nil ⟨fault, failed, incomplete⟩
      rcases left with isChunk | isLine
      · exact (nonempty (isChunk.symm.trans answered)).elim
      · simp [answered] at isLine
  · intro waiting
    rcases sameErr with ⟨answered, -⟩ | ⟨chunk, suffixed, left, fault, failed, incomplete, later⟩
    · exact (waiting answered).elim
    · refine ⟨chunk, fault, suffixed, left, failed, incomplete, ?_, ?_⟩
      · exact lineFeed_notMem_of_incomplete failed incomplete
      · exact later.trans (congrArg (· ++ _) told.symm)
  · intro limit fits
    rw [runOn, Bytes.map_bytes_pieces fits]

/-- An assignment, a comparison by itself, a broken string and no line feed at the end. -/
def brokenString : Bytes :=
  utf8 "x -> \"a\"\n\"b\" == x\ny -> \"c\nd"

theorem run_brokenString_agrees :
    Bytes.carriageReturn ∉ brokenString ∧
    unanswered brokenString.textLines = utf8 "y -> \"c\nd\n" ∧
    Buffered.out brokenString .eof = utf8 "x = \"a\";\n" ∧
    (turns brokenString.textLines).flatMap (fun turn => turn.reply.out) =
      Buffered.out brokenString .eof ∧
    ∃ chunk fault,
      compileSnippet chunk = .error fault ∧
      Buffered.err brokenString .eof =
        (run false [] brokenString.textLines .eof).err ++
          (utf8 "error: " ++ fault.message ++ [Bytes.lineFeed]) := by
  have noReturn : Bytes.carriageReturn ∉ brokenString := by
    decide
  have waiting : unanswered brokenString.textLines = utf8 "y -> \"c\nd\n" := by
    decide
  obtain ⟨-, sameOut, -, reports, -⟩ := run_agrees_with_buffered brokenString noReturn []
  obtain ⟨chunk, fault, -, -, failed, -, -, later⟩ := reports (by rw [waiting]; decide)
  exact ⟨noReturn, waiting, by decide, sameOut, chunk, fault, failed, later⟩

end Prompted

end Session

end TriforceScript
