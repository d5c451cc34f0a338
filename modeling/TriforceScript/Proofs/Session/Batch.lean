import TriforceScript.Proofs.Compilation.Composition
import TriforceScript.Session.Buffered

/-!
# Sessions and whole texts

A session compiles its input chunk by chunk, and decides after every line where a chunk
ends.  What it writes to the standard output is the code of its accepted chunks taken
together as one text, and if it has nothing to complain about, of the whole input.
-/

namespace TriforceScript

theorem Bytes.getLast?_of_mem_splitLines {text line : Bytes}
    (member : line ∈ (splitLines text).1) : line.getLast? = some lineFeed := by
  induction text generalizing line with
  | nil =>
      cases member
  | cons byte rest inductionHypothesis =>
      rcases split : splitLines rest with ⟨lines, remainder⟩
      have others : ∀ other ∈ lines, other.getLast? = some lineFeed := by
        intro other isOther
        apply inductionHypothesis
        rw [split]
        exact isOther
      by_cases ends : byte = lineFeed
      · simp only [splitLines, split, ends, if_true] at member
        rcases List.mem_cons.mp member with rfl | isOther
        · rfl
        · exact others line isOther
      · simp only [splitLines, split, ends, if_false] at member
        cases lines with
        | nil =>
            cases member
        | cons first lines =>
            rcases List.mem_cons.mp member with rfl | isOther
            · have firstEnds := others first (List.Mem.head lines)
              rw [List.getLast?_cons, firstEnds, Option.getD_some]
            · exact others line (List.mem_cons_of_mem first isOther)

namespace Session

/-! ## Answers -/

/-- A chunk that may grow is answered with its code, kept for later, or given up. -/
theorem answer_cases (chunk : Bytes) :
    (∃ text, compileSnippet chunk = .ok text ∧ answer chunk = (.code chunk text, [])) ∨
    answer chunk = (.silent, chunk) ∨
    ∃ fault, answer chunk = (.fault chunk fault, []) := by
  unfold answer
  cases compiled : compileSnippet chunk with
  | ok text => exact .inl ⟨text, rfl, rfl⟩
  | error fault =>
      by_cases incomplete : fault.incomplete = true
      · exact .inr (.inl (if_pos incomplete))
      · exact .inr (.inr ⟨fault, if_neg incomplete⟩)

private theorem answerFinal_cases (chunk : Bytes) :
    (∃ text, compileSnippet chunk = .ok text ∧ answerFinal chunk = .code chunk text) ∨
    ∃ fault, answerFinal chunk = .fault chunk fault := by
  unfold answerFinal
  cases compiled : compileSnippet chunk with
  | ok text => exact .inl ⟨text, rfl, rfl⟩
  | error fault => exact .inr ⟨fault, rfl⟩

private theorem Reply.err_fault_ne_nil (colours : Bool) (chunk : Bytes) (fault : Fault) :
    (Reply.fault chunk fault).err colours ≠ [] := by
  simp [Reply.err, Colour.paintLine]

private theorem Reply.err_unreadable_ne_nil (colours : Bool) (message : Bytes) :
    (Reply.unreadable message).err colours ≠ [] := by
  have ends : utf8 "\n" ≠ [] := by
    decide
  simp [Reply.err, ends]

namespace Buffered

/-! ## One reply for every line -/

/-- What waits for an answer behind some lines, when the lines `pending` waited in front of
them. -/
def waiting (pending : Bytes) (lines : List Bytes) : Bytes :=
  lines.foldl (fun chunk line => (answer (chunk ++ line)).2) pending

/-- A line gets its own reply before any other line is looked at: the answer to the lines that
wait together with it. -/
theorem repliesFrom_cons (ending : Ending) (remainder pending line : Bytes) (lines : List Bytes) :
    repliesFrom ending remainder pending (line :: lines) =
      (answer (pending ++ line)).1 ::
        repliesFrom ending remainder (answer (pending ++ line)).2 lines := rfl

/-- The replies to some lines are not changed by what stands behind them. -/
theorem repliesFrom_append (ending : Ending) (remainder pending : Bytes)
    (first second : List Bytes) :
    repliesFrom ending remainder pending (first ++ second) =
      first.mapIdx (fun index line => (answer (waiting pending (first.take index) ++ line)).1) ++
        repliesFrom ending remainder (waiting pending first) second := by
  induction first generalizing pending with
  | nil =>
      rfl
  | cons line rest inductionHypothesis =>
      rw [List.cons_append, repliesFrom_cons, inductionHypothesis, List.mapIdx_cons]
      rfl

/-- Every line of an input gets its own reply, the answer to the lines that wait in front of it
together with the line itself, whatever stands behind it and however the input ends.  One more
reply is for the end. -/
theorem replies_eq (input : Bytes) (ending : Ending) :
    replies input ending =
      input.splitLines.1.mapIdx
        (fun index line => (answer (waiting [] (input.splitLines.1.take index) ++ line)).1) ++
      [last ending (waiting [] input.splitLines.1) input.splitLines.2] := by
  have whole := repliesFrom_append ending input.splitLines.2 [] input.splitLines.1 []
  rwa [List.append_nil] at whole

/-! ## Code of accepted chunks -/

/-- The chunks that replies give the code of, one behind the other. -/
def acceptedText (replies : List Reply) : Bytes :=
  (replies.filterMap Reply.accepted?).flatten

/-- `Agrees replies` means that the code in replies is the code of their chunks taken
together. -/
def Agrees (replies : List Reply) : Prop :=
  compileSnippet (acceptedText replies) = .ok (replies.flatMap Reply.out)

private theorem agrees_last (ending : Ending) (pending remainder : Bytes) :
    Agrees [last ending pending remainder] := by
  unfold last
  cases ending with
  | failure message => exact compileSnippet_nil
  | eof =>
      by_cases empty : pending = [] ∧ remainder = []
      · rw [if_pos empty]
        exact compileSnippet_nil
      · rw [if_neg empty]
        rcases answerFinal_cases (pending ++ remainder) with ⟨text, compiled, answered⟩ | ⟨fault, answered⟩
        · rw [answered]
          simpa [Agrees, acceptedText, Reply.accepted?, Reply.out] using compiled
        · rw [answered]
          exact compileSnippet_nil

/-- A session agrees with whole texts from every point on, as long as only whole lines
wait for an answer. -/
theorem agrees_repliesFrom (ending : Ending) (remainder : Bytes) {pending : Bytes}
    (waiting : pending.WholeLines) {lines : List Bytes} (whole : ∀ line ∈ lines, line.WholeLines) :
    Agrees (repliesFrom ending remainder pending lines) := by
  induction lines generalizing pending with
  | nil =>
      exact agrees_last ending pending remainder
  | cons line rest inductionHypothesis =>
      have chunkLines : (pending ++ line).WholeLines :=
        Bytes.wholeLines_append waiting (whole line (List.Mem.head rest))
      have restWhole : ∀ other ∈ rest, other.WholeLines := by
        intro other member
        exact whole other (List.mem_cons_of_mem line member)
      have emptyWaiting : Bytes.WholeLines [] := by
        intro byte last
        cases last
      rw [repliesFrom_cons]
      rcases answer_cases (pending ++ line) with
        ⟨text, compiled, answered⟩ | answered | ⟨fault, answered⟩
      · rw [answered]
        have later := inductionHypothesis emptyWaiting restWhole
        exact compileSnippet_append chunkLines compiled later
      · rw [answered]
        exact inductionHypothesis chunkLines restWhole
      · rw [answered]
        exact inductionHypothesis emptyWaiting restWhole

/-! ## Sessions without complaints -/

private theorem acceptedText_last {ending : Ending} {pending remainder : Bytes}
    (quiet : (last ending pending remainder).err false = []) :
    acceptedText [last ending pending remainder] = pending ++ remainder := by
  unfold last at quiet ⊢
  cases ending with
  | failure message => exact (Reply.err_unreadable_ne_nil false message quiet).elim
  | eof =>
      by_cases empty : pending = [] ∧ remainder = []
      · rw [if_pos empty, empty.1, empty.2]
        rfl
      · simp only [if_neg empty] at quiet ⊢
        rcases answerFinal_cases (pending ++ remainder) with
          ⟨text, -, answered⟩ | ⟨fault, answered⟩
        · rw [answered]
          simp [acceptedText, Reply.accepted?]
        · rw [answered] at quiet
          exact (Reply.err_fault_ne_nil false _ fault quiet).elim

/-- A session without complaints accepts all of its input. -/
theorem acceptedText_repliesFrom {ending : Ending} {remainder pending : Bytes}
    {lines : List Bytes}
    (quiet : (repliesFrom ending remainder pending lines).flatMap (Reply.err false) = []) :
    acceptedText (repliesFrom ending remainder pending lines) =
      pending ++ lines.flatten ++ remainder := by
  induction lines generalizing pending with
  | nil =>
      rw [repliesFrom] at quiet ⊢
      have quietLast : (last ending pending remainder).err false = [] := by
        simpa using quiet
      rw [acceptedText_last quietLast, List.flatten_nil, List.append_nil]
  | cons line rest inductionHypothesis =>
      rw [repliesFrom_cons] at quiet ⊢
      rcases answer_cases (pending ++ line) with
        ⟨text, -, answered⟩ | answered | ⟨fault, answered⟩
      · rw [answered] at quiet ⊢
        show (pending ++ line) ++ acceptedText (repliesFrom ending remainder [] rest) = _
        rw [inductionHypothesis quiet]
        simp
      · rw [answered] at quiet ⊢
        show acceptedText (repliesFrom ending remainder (pending ++ line) rest) = _
        rw [inductionHypothesis quiet]
        simp
      · rw [answered] at quiet
        have silent := (List.append_eq_nil_iff.mp quiet).1
        exact (Reply.err_fault_ne_nil false _ fault silent).elim

/-- Everything that a session writes to the standard output is the code of the chunks
that it accepted, taken together as one text.  If it writes nothing to the standard
error, this is the code of the whole input. -/
theorem compileSnippet_accepted (input : Bytes) (ending : Ending) :
    compileSnippet ((replies input ending).filterMap Reply.accepted?).flatten =
      .ok (out input ending) ∧
    (err input ending = [] → compileSnippet input = .ok (out input ending)) := by
  have whole : ∀ line ∈ input.splitLines.1, line.WholeLines := by
    intro line member
    exact Bytes.wholeLines_of_getLast? (Bytes.getLast?_of_mem_splitLines member)
  have fresh : Bytes.WholeLines [] := by
    intro byte last
    cases last
  have agrees := agrees_repliesFrom ending input.splitLines.2 fresh whole
  refine ⟨agrees, ?_⟩
  intro quiet
  have accepted := acceptedText_repliesFrom quiet
  rw [List.nil_append, Bytes.splitLines_flatten] at accepted
  rw [Agrees, accepted] at agrees
  exact agrees

/-- An assignment over two lines, and one without a line feed at its end. -/
def brokenLine : Bytes :=
  utf8 "x ->\n\"a\"\ny -> x"

theorem compileSnippet_brokenLine :
    err brokenLine .eof = [] ∧
    out brokenLine .eof = utf8 "x = \"a\";\ny = x;\n" ∧
    compileSnippet brokenLine = .ok (out brokenLine .eof) := by
  have quiet : err brokenLine .eof = [] := by
    decide
  have code : out brokenLine .eof = utf8 "x = \"a\";\ny = x;\n" := by
    decide
  exact ⟨quiet, code, (compileSnippet_accepted brokenLine .eof).2 quiet⟩

end Buffered

end Session

end TriforceScript
