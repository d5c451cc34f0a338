import TriforceScript.Proofs.Reader.Plain
import TriforceScript.Proofs.Scan.Tokens
import TriforceScript.Session.Buffered

/-!
# Plain sources

Whatever comes of a plain source text is plain: its tokens, the notes on it, its code and its
faults.  The same holds for all that a session tells about a plain input.
-/

namespace TriforceScript

open Lexeme (Cuts)

/-! ## Tokens -/

private theorem Lexeme.text_subset (lexeme : Lexeme) : lexeme.text ⊆ lexeme.bytes := by
  unfold Lexeme.text
  split
  · intro byte member
    exact List.mem_of_mem_drop ((List.dropLast_sublist _).subset member)
  · intro byte member
    exact List.mem_of_mem_drop (Bytes.mem_of_mem_trim member)
  · exact List.Subset.refl _

private theorem Lexeme.Cuts.plain_tokens {text : Bytes} {lexemes : List Lexeme}
    {obstacle : Option Obstacle} (cuts : Cuts text lexemes obstacle) (plain : text.Plain)
    (position : Position) : ∀ token ∈ tokens position lexemes, token.text.Plain := by
  induction cuts generalizing position with
  | done =>
      intro token member
      cases member
  | stuck _ =>
      intro token member
      cases member
  | @lexeme first tail behind lexeme lexemes obstacle cutOff bytes _ inductionHypothesis =>
      rw [← bytes, Bytes.plain_append] at plain
      intro token member
      rw [tokens, List.mem_append] at member
      rcases member with isFirst | inRest
      · rw [Option.mem_toList] at isFirst
        obtain ⟨kind, -, rfl⟩ := Option.map_eq_some_iff.mp isFirst
        exact plain.1.of_subset lexeme.text_subset
      · exact inductionHypothesis plain.2 _ token inRest

private theorem plain_scan {source : Bytes} {tokens : List Token} (plain : source.Plain)
    (scanned : scan source = .ok tokens) : ∀ token ∈ tokens, token.text.Plain := by
  obtain ⟨lexemes, cuts, rfl⟩ := Lexeme.exists_cuts_of_scan_eq_ok scanned
  intro token member
  rcases List.mem_append.mp member with inLexemes | isEnd
  · exact cuts.plain_tokens plain .start token inLexemes
  · rw [List.mem_singleton.mp isEnd]
    exact Bytes.plain_nil

private theorem ScanFault.plain_message (fault : ScanFault) : fault.message.Plain := by
  cases fault with
  | unexpected glyph line => simp +decide [ScanFault.message]
  | unterminated line => simp +decide [ScanFault.message]

/-! ## Compilations -/

/-- Whether the texts of a compilation are plain. -/
structure Compilation.Plain (compilation : Compilation) : Prop where
  tokens : ∀ token ∈ compilation.tokens, token.text.Plain
  code : compilation.code.Plain

private theorem Reading.Plain.plainly {reading : Reading} (plain : reading.Plain) :
    Plainly Fault.message (∀ statement ∈ ·, statement.Plain)
      (reading.result.mapError Fault.parse) :=
  plain.result.mapError fun _ => rfl

theorem plainly_compile {source : Bytes} (plain : source.Plain) :
    (∀ note ∈ (compile source).notes, note.message.Plain) ∧
    Plainly Fault.message Compilation.Plain (compile source).result := by
  cases scanned : scan source with
  | error fault =>
      rw [compile, scanned]
      exact ⟨by simp, .error fault.plain_message⟩
  | ok tokens =>
      have plainTokens := plain_scan plain scanned
      have plainReading := plain_readTokens plainTokens
      rw [compile, scanned]
      refine ⟨plainReading.notes, plainReading.plainly.bind ?_⟩
      intro program plainProgram
      have plainFile :
          Plainly Fault.message Bytes.Plain ((JavaScript.file program).mapError Fault.emit) :=
        (JavaScript.plainly_file plainProgram).mapError fun _ => rfl
      apply plainFile.bind
      intro code plainCode
      exact .ok ⟨plainTokens, plainCode⟩

private theorem plainly_compileSnippet {source : Bytes} (plain : source.Plain) :
    Plainly Fault.message Bytes.Plain (compileSnippet source) := by
  cases scanned : scan source with
  | error fault =>
      rw [compileSnippet, parse, scanned]
      exact .error fault.plain_message
  | ok tokens =>
      have plainReading := plain_readTokens (plain_scan plain scanned)
      rw [compileSnippet, parse, scanned]
      apply plainReading.plainly.bind
      intro program plainProgram
      exact (JavaScript.plainly_statements plainProgram).mapError fun _ => rfl

/-! ## Sessions -/

namespace Session

/-- Whether what a reply writes without colours is plain. -/
structure Reply.Plain (reply : Reply) : Prop where
  out : reply.out.Plain
  err : (reply.err false).Plain

private theorem Reply.plain_silent : Reply.silent.Plain :=
  ⟨Bytes.plain_nil, Bytes.plain_nil⟩

private theorem Reply.plain_code {text : Bytes} (plain : text.Plain) (chunk : Bytes) :
    (Reply.code chunk text).Plain :=
  ⟨plain, Bytes.plain_nil⟩

private theorem Reply.plain_fault {fault : Fault} (plain : fault.message.Plain) (chunk : Bytes) :
    (Reply.fault chunk fault).Plain where
  out := Bytes.plain_nil
  err := by
    simp +decide [Reply.err, Colour.paintLine, Colour.paint, plain]

private theorem plain_answerFinal {chunk : Bytes} (plain : chunk.Plain) :
    (answerFinal chunk).Plain := by
  have plainly := plainly_compileSnippet plain
  unfold answerFinal
  generalize compileSnippet chunk = result at plainly
  cases plainly with
  | ok plainText => exact Reply.plain_code plainText chunk
  | error plainFault => exact Reply.plain_fault plainFault chunk

private theorem plain_answer {chunk : Bytes} (plain : chunk.Plain) :
    (answer chunk).1.Plain ∧ (answer chunk).2.Plain := by
  have plainly := plainly_compileSnippet plain
  unfold answer
  generalize compileSnippet chunk = result at plainly
  cases plainly with
  | ok plainText => exact ⟨Reply.plain_code plainText chunk, Bytes.plain_nil⟩
  | error plainFault =>
      dsimp only
      split
      · exact ⟨Reply.plain_silent, plain⟩
      · exact ⟨Reply.plain_fault plainFault chunk, Bytes.plain_nil⟩

/-- Whether the reason for the end of an input is plain. -/
def Ending.Plain : Ending → Prop
  | .eof => True
  | .failure message => message.Plain

namespace Buffered

private theorem plain_last {ending : Ending} {pending remainder : Bytes}
    (plainEnding : ending.Plain) (plainPending : pending.Plain) (plainRemainder : remainder.Plain) :
    (last ending pending remainder).Plain := by
  unfold last
  cases ending with
  | failure message =>
      have plainMessage : message.Plain := plainEnding
      exact ⟨Bytes.plain_nil, by simp +decide [Reply.err, plainMessage]⟩
  | eof =>
      dsimp only
      split
      · exact Reply.plain_silent
      · exact plain_answerFinal (Bytes.plain_append.mpr ⟨plainPending, plainRemainder⟩)

private theorem plain_repliesFrom {ending : Ending} {remainder pending : Bytes} {lines : List Bytes}
    (plainEnding : ending.Plain) (plainRemainder : remainder.Plain) (plainPending : pending.Plain)
    (plainLines : ∀ line ∈ lines, line.Plain) :
    ∀ reply ∈ repliesFrom ending remainder pending lines, reply.Plain := by
  induction lines generalizing pending with
  | nil =>
      rw [repliesFrom, List.forall_mem_singleton]
      exact plain_last plainEnding plainPending plainRemainder
  | cons line rest inductionHypothesis =>
      obtain ⟨plainLine, plainRest⟩ := List.forall_mem_cons.mp plainLines
      obtain ⟨plainReply, plainKept⟩ :=
        plain_answer (Bytes.plain_append.mpr ⟨plainPending, plainLine⟩)
      rw [repliesFrom, List.forall_mem_cons]
      exact ⟨plainReply, inductionHypothesis plainKept plainRest⟩

/-- All that a session tells about a plain input is plain. -/
theorem plain_out_err {input : Bytes} {ending : Ending} (plain : input.Plain)
    (plainEnding : ending.Plain) : (out input ending).Plain ∧ (err input ending).Plain := by
  rw [← input.splitLines_flatten, Bytes.plain_append] at plain
  obtain ⟨plainLines, plainRemainder⟩ := plain
  have plainReplies : ∀ reply ∈ replies input ending, reply.Plain := by
    apply plain_repliesFrom plainEnding plainRemainder Bytes.plain_nil
    intro line member
    exact plainLines.of_subset fun byte inLine => List.mem_flatten.mpr ⟨line, member, inLine⟩
  rw [out, err, Bytes.plain_flatMap, Bytes.plain_flatMap]
  exact ⟨fun reply member => (plainReplies reply member).out,
    fun reply member => (plainReplies reply member).err⟩

end Buffered

end Session

end TriforceScript
