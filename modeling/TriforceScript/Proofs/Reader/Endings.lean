import TriforceScript.Compilation
import TriforceScript.Proofs.Reader.Run
import TriforceScript.Proofs.Scan.Tokens

/-!
# Endings

Reading comes to its end at a token for the end.  The tokens behind the first one do not
matter, and where there is none, one is supplied.  Of the token for the end nothing shows but
its place, and that only in a fault that more tokens could mend.
-/

namespace TriforceScript

/-! ## Faults in different lines -/

/-- Two diagnostics differ in nothing but the line, which both wordings tell at the same
place. -/
def Diagnostic.SameButLine (first second : Diagnostic) : Prop :=
  first.step = second.step ∧ first.incomplete = second.incomplete ∧
  ∃ front back,
    first.message = front ++ utf8 " at line " ++ Bytes.ofInt first.line ++ back ∧
    second.message = front ++ utf8 " at line " ++ Bytes.ofInt second.line ++ back

theorem ParseFault.sameButLine {fault other : ParseFault}
    (sameExpected : fault.expected = other.expected)
    (sameKind : fault.found.kind = other.found.kind)
    (sameText : fault.found.text = other.found.text) :
    (Fault.parse fault).diagnostic.SameButLine (Fault.parse other).diagnostic := by
  have wording (some : ParseFault) :
      some.message =
        some.expected.message ++ utf8 " at line " ++ Bytes.ofInt some.line ++
          (utf8 ", found " ++ some.found.kind.name ++ utf8 " (" ++ some.found.text ++
            utf8 ")") := by
    simp only [message, List.append_assoc]
  refine ⟨rfl, ?_, fault.expected.message, _, wording fault, ?_⟩
  · show fault.incomplete = other.incomplete
    rw [incomplete, incomplete, sameKind]
  · rw [sameExpected, sameKind, sameText]
    exact wording other

namespace Reader

namespace State

/-! ## Where reading stops -/

/-- How many tokens are accepted before reading stops. -/
def progress (state : State) : List Token → Nat
  | [] => 0
  | token :: rest =>
      match state.accept? token with
      | some next => next.progress rest + 1
      | none => 0

theorem progress_cons_of_accept? {state next : State} {token : Token}
    (accepted : state.accept? token = some next) (rest : List Token) :
    state.progress (token :: rest) = next.progress rest + 1 := by
  rw [progress, accepted]

theorem progress_cons_of_blocked {state : State} {token : Token}
    (blocked : state.accept? token = none) (rest : List Token) :
    state.progress (token :: rest) = 0 := by
  rw [progress, blocked]

/-- A fault is about the token where reading stops. -/
theorem getElem?_progress {state : State} {endToken : Token} {tokens : List Token}
    {fault : ParseFault} (failed : (state.read endToken tokens).result = .error fault) :
    (tokens ++ [endToken])[state.progress tokens]? = some fault.found := by
  induction tokens generalizing state with
  | nil =>
      rw [read, finish] at failed
      split at failed
      · cases failed
      · cases failed
        rfl
  | cons token rest inductionHypothesis =>
      rw [read] at failed
      cases accepted : state.accept? token with
      | some next =>
          rw [accepted] at failed
          rw [progress_cons_of_accept? accepted, List.cons_append, List.getElem?_cons_succ]
          exact inductionHypothesis failed
      | none =>
          rw [accepted] at failed
          cases failed
          rw [progress_cons_of_blocked accepted]
          rfl

end State

end Reader

/-! ## Tokens up to the end -/

namespace Token

/-- The tokens in front of the first one for the end. -/
def beforeEnd (tokens : List Token) : List Token :=
  tokens.takeWhile (·.kind != .eof)

/-- The first token for the end.  Where there is none, it is one without a text at the place of
the last token. -/
def ending (tokens : List Token) : Token :=
  (tokens.find? (·.kind == .eof)).getD ⟨.eof, [], lastPos tokens⟩

end Token

namespace Reader

namespace State

private theorem reject_ending (state : State) {endToken other : Token}
    (sameKind : endToken.kind = other.kind) :
    (state.reject endToken).notes = (state.reject other).notes ∧
    ∃ expected,
      (state.reject endToken).result = .error ⟨expected, endToken⟩ ∧
      (state.reject other).result = .error ⟨expected, other⟩ := by
  refine ⟨rfl, state.expected endToken, rfl, ?_⟩
  rw [reject, expected, ← sameKind]
  rfl

/-- Of two tokens for the end it does not matter which one ends the reading, except that a fault
at the end names it. -/
theorem read_ending (state : State) {endToken other : Token}
    (sameKind : endToken.kind = other.kind) (tokens : List Token) :
    (state.read endToken tokens).notes = (state.read other tokens).notes ∧
    ((state.read endToken tokens).result = (state.read other tokens).result ∨
      ∃ expected,
        (state.read endToken tokens).result = .error ⟨expected, endToken⟩ ∧
        (state.read other tokens).result = .error ⟨expected, other⟩) := by
  induction tokens generalizing state with
  | nil =>
      rw [read, read, finish, finish]
      cases state.program? with
      | some program =>
          exact ⟨rfl, .inl rfl⟩
      | none =>
          obtain ⟨sameNotes, faults⟩ := state.reject_ending sameKind
          exact ⟨sameNotes, .inr faults⟩
  | cons token rest inductionHypothesis =>
      rw [read, read]
      cases state.accept? token with
      | some next => exact inductionHypothesis next
      | none => exact ⟨rfl, .inl rfl⟩

end State

end Reader

section UpToEnd

variable {tokens : List Token} (proper : ∀ token ∈ tokens, token.kind ≠ .eof)

include proper

theorem readTokens_append_end_cons {endToken : Token} (isEnd : endToken.kind = .eof)
    (behind : List Token) :
    readTokens (tokens ++ endToken :: behind) = Reader.State.read endToken {} tokens := by
  have noneBefore := find?_end_eq_none proper
  rw [readTokens, takeWhile_append_of_proper proper, List.find?_append, noneBefore]
  simp [isEnd]

end UpToEnd

/-- The outcome of two readings of a program is the same but for the line of a fault that more
tokens could mend. -/
def SameOutcome (first : Except ParseFault Program) (second : Except Fault Program) : Prop :=
  (∃ program, first = .ok program ∧ second = .ok program) ∨
  ∃ fault other,
    first = .error fault ∧ second = .error (.parse other) ∧
    (fault = other ∨
      fault.incomplete = true ∧
      (Fault.parse fault).diagnostic.SameButLine (Fault.parse other).diagnostic)

/-- Without their token for the end, the tokens of a source text are read as the text is. -/
theorem readTokens_of_scan {source : Bytes} {scanned : List Token}
    (isScan : scan source = .ok scanned) :
    ∃ tokens endToken,
      scanned = tokens ++ [endToken] ∧ endToken.kind = .eof ∧
      (readTokens tokens).notes = (parse source).notes ∧
      SameOutcome (readTokens tokens).result (parse source).result := by
  obtain ⟨lexemes, cuts, rfl⟩ := Lexeme.exists_cuts_of_scan_eq_ok isScan
  have proper := cuts.kind_ne_eof .start
  generalize Lexeme.tokens .start lexemes = tokens at isScan proper
  have whole :
      parse source =
        ⟨(Reader.State.read (Lexeme.endToken lexemes) {} tokens).notes,
          (Reader.State.read (Lexeme.endToken lexemes) {} tokens).result.mapError .parse⟩ := by
    rw [parse, isScan, ← readTokens_append_end proper rfl]
  obtain ⟨sameNotes, outcomes⟩ := ({} : Reader.State).read_ending
    (show (⟨.eof, [], Token.lastPos tokens⟩ : Token).kind = (Lexeme.endToken lexemes).kind from rfl)
    tokens
  rw [← readTokens_of_proper proper] at sameNotes outcomes
  refine ⟨tokens, Lexeme.endToken lexemes, rfl, rfl, ?_, ?_⟩
  · rw [whole, sameNotes]
  · rw [whole]
    rcases outcomes with same | ⟨expected, fault, other⟩
    · rw [same]
      cases (Reader.State.read (Lexeme.endToken lexemes) {} tokens).result with
      | ok program => exact .inl ⟨program, rfl, rfl⟩
      | error fault => exact .inr ⟨fault, fault, rfl, rfl, .inl rfl⟩
    · rw [fault, other]
      exact .inr ⟨_, _, rfl, rfl, .inr ⟨rfl, ParseFault.sameButLine rfl rfl rfl⟩⟩

end TriforceScript
