import TriforceScript.Proofs.Reader.Endings
import TriforceScript.Proofs.Reader.Erasure

/-!
# Places do not matter

Tokens that are the same up to places are read alike: as programs that are the same up to
places and have the same code, or up to the same token, with faults that differ in nothing but
the line.  Every step of the reader commutes with erasing all places, and so does a whole
reading, whether it ends well or not.
-/

namespace TriforceScript

/-! ## Readings without places -/

/-- A fault with the place of its token erased. -/
def ParseFault.erase (fault : ParseFault) : ParseFault :=
  ⟨fault.expected, fault.found.erase⟩

private theorem ParseFault.sameButLine_of_erase_eq {fault other : ParseFault}
    (same : fault.erase = other.erase) :
    (Fault.parse fault).diagnostic.SameButLine (Fault.parse other).diagnostic := by
  obtain ⟨sameExpected, sameFound⟩ := ParseFault.mk.inj same
  obtain ⟨sameKind, sameText, -⟩ := Token.mk.inj sameFound
  exact sameButLine sameExpected sameKind sameText

/-- What comes of a reading, with all places erased. -/
def Reading.eraseResult : Except ParseFault Program → Except ParseFault Program
  | .ok program => .ok (program.map Node.erase)
  | .error fault => .error fault.erase

/-- A reading with all its places erased. -/
def Reading.erase (reading : Reading) : Reading :=
  ⟨reading.notes.map Note.erase, eraseResult reading.result⟩

namespace Reader

namespace State

private theorem expected_erase (state : State) (token : Token) :
    state.erase.expected token.erase = state.expected token := by
  have sameStage : state.settle.erase.stage = state.settle.stage.erase := rfl
  unfold expected
  rw [settle_erase, sameStage, Token.kind_erase]
  cases state.settle.stage with
  | operator purpose compared joined => cases purpose <;> rfl
  | _ => rfl

private theorem lastNotes_erase (state : State) :
    state.erase.lastNotes = state.lastNotes.map Note.erase := by
  have sameStage : state.erase.stage = state.stage.erase := rfl
  unfold lastNotes
  rw [sameStage]
  cases state.stage <;> rfl

private theorem reject_erase (state : State) (token : Token) :
    state.erase.reject token.erase = Reading.erase (state.reject token) := by
  rw [reject, lastNotes_erase, expected_erase, ← List.map_reverse]
  rfl

private theorem finish_erase (state : State) (endToken : Token) :
    state.erase.finish endToken.erase = Reading.erase (state.finish endToken) := by
  have sameNotes : state.erase.notes = state.notes.map Note.erase := rfl
  rw [finish, finish, program?_erase, sameNotes, ← List.map_reverse]
  cases state.program? with
  | none => exact state.reject_erase endToken
  | some program => rfl

/-- Erasing all places commutes with reading. -/
theorem read_erase (state : State) (endToken : Token) (tokens : List Token) :
    state.erase.read endToken.erase (tokens.map Token.erase) =
      Reading.erase (state.read endToken tokens) := by
  induction tokens generalizing state with
  | nil =>
      exact state.finish_erase endToken
  | cons token rest inductionHypothesis =>
      rw [List.map_cons, read, read, accept?_erase]
      cases state.accept? token with
      | none => exact state.reject_erase token
      | some next => exact inductionHypothesis next

private theorem progress_erase (state : State) (tokens : List Token) :
    state.erase.progress (tokens.map Token.erase) = state.progress tokens := by
  induction tokens generalizing state with
  | nil =>
      rfl
  | cons token rest inductionHypothesis =>
      have sameStep := state.accept?_erase token
      cases accepted : state.accept? token with
      | none =>
          rw [accepted, Option.map_none] at sameStep
          rw [List.map_cons, progress_cons_of_blocked accepted, progress_cons_of_blocked sameStep]
      | some next =>
          rw [accepted, Option.map_some] at sameStep
          rw [List.map_cons, progress_cons_of_accept? accepted, progress_cons_of_accept? sameStep,
            inductionHypothesis]

end State

end Reader

/-! ## Whole lists of tokens -/

namespace Token

private theorem beforeEnd_erase (tokens : List Token) :
    beforeEnd (tokens.map erase) = (beforeEnd tokens).map erase := by
  rw [beforeEnd, beforeEnd, List.takeWhile_map]
  rfl

private theorem ending_erase (tokens : List Token) :
    ending (tokens.map erase) = (ending tokens).erase := by
  have sameFound :
      (tokens.map erase).find? (·.kind == .eof) = (tokens.find? (·.kind == .eof)).map erase := by
    rw [List.find?_map]
    rfl
  have sameLast : lastPos (tokens.map erase) = .origin := by
    rw [lastPos, List.getLast?_map]
    cases tokens.getLast? <;> rfl
  rw [ending, ending, sameFound, sameLast]
  cases tokens.find? (·.kind == .eof) <;> rfl

/-- The index of the token where reading stops. -/
def stopIndex (tokens : List Token) : Nat :=
  ({} : Reader.State).progress (beforeEnd tokens)

private theorem stopIndex_erase (tokens : List Token) :
    stopIndex (tokens.map erase) = stopIndex tokens := by
  rw [stopIndex, beforeEnd_erase]
  exact ({} : Reader.State).progress_erase (beforeEnd tokens)

/-- Two tokens are the same up to places. -/
def SameContent (first second : Token) : Prop :=
  first.kind = second.kind ∧ first.text = second.text

private theorem SameContent.erase_eq {first second : Token} (same : first.SameContent second) :
    first.erase = second.erase := by
  rw [erase, erase, same.1, same.2]

private theorem map_erase_eq {first second : List Token}
    (same : List.Forall₂ SameContent first second) :
    first.map erase = second.map erase := by
  induction same with
  | nil =>
      rfl
  | cons sameHead _ inductionHypothesis =>
      rw [List.map_cons, List.map_cons, sameHead.erase_eq, inductionHypothesis]

end Token

/-- Erasing all places commutes with reading tokens up to their end. -/
theorem readTokens_erase (tokens : List Token) :
    readTokens (tokens.map Token.erase) = Reading.erase (readTokens tokens) := by
  have reading (some : List Token) :
      readTokens some = Reader.State.read (Token.ending some) {} (Token.beforeEnd some) := rfl
  rw [reading, reading, Token.ending_erase, Token.beforeEnd_erase]
  exact ({} : Reader.State).read_erase (Token.ending tokens) (Token.beforeEnd tokens)

/-- Reading stops with a fault at the token with an index, where the token for the end counts
as the last one. -/
structure FailsAt (tokens : List Token) (index : Nat) (fault : ParseFault) : Prop where
  failed : (readTokens tokens).result = .error fault
  stopped : Token.stopIndex tokens = index
  found : (Token.beforeEnd tokens ++ [Token.ending tokens])[index]? = some fault.found

private theorem failsAt_stopIndex {tokens : List Token} {fault : ParseFault}
    (failed : (readTokens tokens).result = .error fault) :
    FailsAt tokens (Token.stopIndex tokens) fault :=
  ⟨failed, rfl, Reader.State.getElem?_progress failed⟩

/-- Where tokens stand never influences what they are translated to.  Tokens that are the same
up to places are programs that are the same up to places, with the same code or the same defect,
or both fail at the same index with faults that differ in nothing but the line. -/
theorem readTokens_of_sameContent {first second : List Token}
    (same : List.Forall₂ Token.SameContent first second) :
    (∃ program other,
      (readTokens first).result = .ok program ∧ (readTokens second).result = .ok other ∧
      program.map Node.erase = other.map Node.erase ∧
      JavaScript.statements program = JavaScript.statements other) ∨
    ∃ fault other index,
      FailsAt first index fault ∧ FailsAt second index other ∧
      (Fault.parse fault).diagnostic.SameButLine (Fault.parse other).diagnostic := by
  have sameErased := Token.map_erase_eq same
  have sameReading :
      Reading.eraseResult (readTokens first).result =
        Reading.eraseResult (readTokens second).result := by
    have erased := (readTokens_erase first).symm.trans
      ((congrArg readTokens sameErased).trans (readTokens_erase second))
    exact congrArg Noted.result erased
  have sameIndex : Token.stopIndex first = Token.stopIndex second := by
    rw [← Token.stopIndex_erase first, sameErased, Token.stopIndex_erase]
  cases readFirst : (readTokens first).result with
  | ok program =>
      cases readSecond : (readTokens second).result with
      | error other =>
          rw [readFirst, readSecond] at sameReading
          cases sameReading
      | ok other =>
          rw [readFirst, readSecond] at sameReading
          have sameProgram : program.map Node.erase = other.map Node.erase :=
            Except.ok.inj sameReading
          exact .inl ⟨program, other, rfl, rfl, sameProgram,
            JavaScript.statements_congr sameProgram⟩
  | error fault =>
      cases readSecond : (readTokens second).result with
      | ok other =>
          rw [readFirst, readSecond] at sameReading
          cases sameReading
      | error other =>
          rw [readFirst, readSecond] at sameReading
          have sameFault : fault.erase = other.erase := Except.error.inj sameReading
          exact .inr ⟨fault, other, Token.stopIndex first, failsAt_stopIndex readFirst,
            sameIndex ▸ failsAt_stopIndex readSecond,
            ParseFault.sameButLine_of_erase_eq sameFault⟩

/-- A condition without an end, on one line. -/
def openCondition : List Token :=
  [⟨.ifWord, utf8 "if", ⟨1, 3⟩⟩, ⟨.arrow, utf8 "->", ⟨1, 6⟩⟩, ⟨.identifier, utf8 "x", ⟨1, 8⟩⟩]

/-- The same tokens on three lines, the second of which does not count up. -/
def scatteredCondition : List Token :=
  [⟨.ifWord, utf8 "if", ⟨4, 3⟩⟩, ⟨.arrow, utf8 "->", ⟨-2, 0⟩⟩, ⟨.identifier, utf8 "x", ⟨9, 8⟩⟩]

theorem readTokens_scatteredCondition :
    List.Forall₂ Token.SameContent openCondition scatteredCondition ∧
    FailsAt openCondition 3 ⟨.branchDoubleArrow, ⟨.eof, [], ⟨1, 8⟩⟩⟩ ∧
    FailsAt scatteredCondition 3 ⟨.branchDoubleArrow, ⟨.eof, [], ⟨9, 8⟩⟩⟩ ∧
    (Fault.parse ⟨.branchDoubleArrow, ⟨.eof, [], ⟨1, 8⟩⟩⟩).diagnostic.SameButLine
      (Fault.parse ⟨.branchDoubleArrow, ⟨.eof, [], ⟨9, 8⟩⟩⟩).diagnostic := by
  have same : List.Forall₂ Token.SameContent openCondition scatteredCondition :=
    .cons ⟨rfl, rfl⟩ (.cons ⟨rfl, rfl⟩ (.cons ⟨rfl, rfl⟩ .nil))
  have failed :
      (readTokens openCondition).result =
        .error ⟨.branchDoubleArrow, ⟨.eof, [], ⟨1, 8⟩⟩⟩ := rfl
  have failedScattered :
      (readTokens scatteredCondition).result =
        .error ⟨.branchDoubleArrow, ⟨.eof, [], ⟨9, 8⟩⟩⟩ := rfl
  refine ⟨same, ?_⟩
  rcases readTokens_of_sameContent same with
    ⟨program, other, read, -⟩ | ⟨fault, other, index, fails, failsScattered, sameButLine⟩
  · rw [failed] at read
    cases read
  · obtain rfl := Except.error.inj (failed.symm.trans fails.failed)
    obtain rfl := Except.error.inj (failedScattered.symm.trans failsScattered.failed)
    obtain rfl : 3 = index := fails.stopped
    exact ⟨fails, failsScattered, sameButLine⟩

end TriforceScript
