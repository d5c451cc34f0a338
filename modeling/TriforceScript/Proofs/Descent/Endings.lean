import TriforceScript.Proofs.Descent.Statements
import TriforceScript.Proofs.Reader.Endings

/-!
# Descents come to their end

Every list of tokens can be read by descent, and the descent gives what the reader gives.  Though
it could look at all tokens, none behind the first one for the end shows in what comes of it.
-/

namespace TriforceScript

namespace Token

theorem kind_ne_eof_of_mem_beforeEnd {tokens : List Token} {token : Token}
    (member : token ∈ beforeEnd tokens) : token.kind ≠ .eof := by
  simpa using List.mem_takeWhile_imp member

theorem kind_ending (tokens : List Token) : (ending tokens).kind = .eof := by
  rw [ending]
  cases found : tokens.find? (·.kind == .eof) with
  | none => rfl
  | some endToken => simpa using List.find?_some found

end Token

namespace Descent

/-- The tokens of a descent are those in front of the end, a token for the end, and others. -/
theorem exists_closed (tokens : List Token) :
    ∃ behind, closed tokens = Token.beforeEnd tokens ++ Token.ending tokens :: behind := by
  cases found : tokens.find? (·.kind == .eof) with
  | none =>
      have proper (token : Token) (member : token ∈ tokens) : token.kind ≠ .eof := by
        simpa using List.find?_eq_none.mp found token member
      have whole : Token.beforeEnd tokens = tokens := by
        simpa [Token.beforeEnd] using takeWhile_append_of_proper proper []
      have noEnd : tokens.getLast?.map Token.kind ≠ some .eof := by
        intro isEnd
        obtain ⟨last, isLast, isEof⟩ := Option.map_eq_some_iff.mp isEnd
        exact proper last (List.mem_of_getLast? isLast) isEof
      refine ⟨[], ?_⟩
      rw [closed, if_neg noEnd, whole, Token.ending, found]
      rfl
  | some endToken =>
      obtain ⟨isEnd, before, behind, rfl, noEnds⟩ := List.find?_eq_some_iff_append.mp found
      have proper (token : Token) (member : token ∈ before) : token.kind ≠ .eof := by
        simpa using noEnds token member
      have cut : Token.beforeEnd (before ++ endToken :: behind) = before := by
        rw [Token.beforeEnd, takeWhile_append_of_proper proper]
        simpa using isEnd
      rw [cut, Token.ending, found, closed]
      split
      · exact ⟨behind, rfl⟩
      · exact ⟨behind ++ _, List.append_assoc _ _ _⟩

/-- A descent in front of the tokens before the end gives their reading, however many others
follow the end and however much fuel is left. -/
theorem reading?_of_stands {tokens all : List Token} {fuel : Nat}
    (stands : Stands all (Token.ending tokens) {} (Token.beforeEnd tokens))
    (enough : (Token.beforeEnd tokens).length < fuel) :
    reading? (statements all fuel {}) = some (readTokens tokens) := by
  have agrees :
      Agrees (readTokens tokens)
        (fun program reached => readTokens tokens = ⟨reached.notes.reverse, .ok program⟩)
        (statements all fuel {}) :=
    agrees_statements rfl rfl enough ⟨stands, rfl, rfl⟩
  generalize statements all fuel {} = result at agrees
  match result with
  | .ok program reached => exact congrArg some agrees.symm
  | .error (.fault fault) reached => exact congrArg some agrees.symm
  | .error .outside _ | .error .exhausted _ => exact agrees.elim

/-- Reading by descent comes to an end, without a look outside of the tokens, and gives the
reading of the tokens. -/
theorem descend_eq (tokens : List Token) : descend tokens = some (readTokens tokens) := by
  have stands :
      Stands (closed tokens) (Token.ending tokens) {} (Token.beforeEnd tokens) :=
    ⟨exists_closed tokens, fun _ => Token.kind_ne_eof_of_mem_beforeEnd, Token.kind_ending tokens⟩
  exact reading?_of_stands stands stands.length_lt

end Descent

/-- Only the tokens up to the first one for the end matter, and where there is none, one without
a text is supplied at the place of the last token.  This holds of the reader and of a descent
that could look at any token.  In particular the tokens of a source text are read as the text
is, also without their token for the end, but for the line of a fault that more tokens could
mend. -/
theorem readTokens_up_to_end :
    (∀ tokens : List Token, Descent.descend tokens = some (readTokens tokens)) ∧
    (∀ (tokens : List Token) (endToken : Token) (behind : List Token),
      (∀ token ∈ tokens, token.kind ≠ .eof) → endToken.kind = .eof →
      readTokens (tokens ++ endToken :: behind) = readTokens (tokens ++ [endToken])) ∧
    (∀ tokens : List Token, (∀ token ∈ tokens, token.kind ≠ .eof) →
      readTokens tokens = readTokens (tokens ++ [⟨.eof, [], Token.lastPos tokens⟩])) ∧
    ∀ (source : Bytes) (scanned : List Token), scan source = .ok scanned →
      ∃ tokens endToken,
        scanned = tokens ++ [endToken] ∧ endToken.kind = .eof ∧
        (readTokens tokens).notes = (parse source).notes ∧
        SameOutcome (readTokens tokens).result (parse source).result := by
  refine ⟨Descent.descend_eq, ?_, ?_, fun source scanned isScan => readTokens_of_scan isScan⟩
  · intro tokens endToken behind proper isEnd
    rw [readTokens_append_end_cons proper isEnd, readTokens_append_end proper isEnd]
  · intro tokens proper
    rw [readTokens_of_proper proper, readTokens_append_end proper rfl]

/-- The tokens of `write(x`, before a line break and the end. -/
def openWrite : List Token :=
  [⟨.writeWord, utf8 "write", ⟨1, 6⟩⟩, ⟨.leftParen, utf8 "(", ⟨1, 7⟩⟩,
    ⟨.identifier, utf8 "x", ⟨1, 8⟩⟩]

/-- A parenthesis behind the end is too late.  Without the end, the fault is in the line of the
last token, not in the next one. -/
theorem readTokens_up_to_end_openWrite :
    let late : List Token := [⟨.rightParen, utf8 ")", ⟨3, 2⟩⟩, ⟨.eof, [], ⟨3, 2⟩⟩]
    (∀ token ∈ openWrite, token.kind ≠ .eof) ∧
    readTokens (openWrite ++ ⟨.eof, [], ⟨2, 1⟩⟩ :: late) =
      readTokens (openWrite ++ [⟨.eof, [], ⟨2, 1⟩⟩]) ∧
    Descent.descend (openWrite ++ ⟨.eof, [], ⟨2, 1⟩⟩ :: late) =
      some ⟨[.write 1], .error ⟨.rightParen, ⟨.eof, [], ⟨2, 1⟩⟩⟩⟩ ∧
    readTokens openWrite = readTokens (openWrite ++ [⟨.eof, [], ⟨1, 8⟩⟩]) ∧
    scan (utf8 "write(x\n") = .ok (openWrite ++ [⟨.eof, [], ⟨2, 1⟩⟩]) ∧
    SameOutcome (readTokens openWrite).result (parse (utf8 "write(x\n")).result := by
  intro late
  obtain ⟨descends, cuts, supplies, scans⟩ := readTokens_up_to_end
  have proper : ∀ token ∈ openWrite, token.kind ≠ .eof := by decide
  have scanned : scan (utf8 "write(x\n") = .ok (openWrite ++ [⟨.eof, [], ⟨2, 1⟩⟩]) := rfl
  obtain ⟨tokens, endToken, shape, -, -, same⟩ := scans _ _ scanned
  obtain ⟨rfl, -⟩ := List.append_inj' shape rfl
  exact ⟨proper, cuts openWrite _ late proper rfl, descends _, supplies openWrite proper, scanned,
    same⟩

end TriforceScript
