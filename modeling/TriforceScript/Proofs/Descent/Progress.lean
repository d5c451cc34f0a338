import TriforceScript.Proofs.Descent.Endings

/-!
# Progress of descents

The first token for the end bounds a descent: no part of it moves the cursor behind that token,
and none moves it back.  Parts that read something move the cursor ahead when they come to a
value, so that all loops end.  Main statement: this holds of every part from every cursor up to
the end, and a whole descent looks at no index behind the first token for the end.
-/

namespace TriforceScript

namespace Descent

/-- The index of the first token for the end, or the number of tokens if there is none. -/
def endIndex (tokens : List Token) : Nat :=
  tokens.findIdx (·.kind == .eof)

/-- What a part may do from the index `start` on.  When it comes to a value it has moved the
cursor ahead by `gain`, and when it halts with a fault it has not moved it back.  Only where no
token is for the end may it look outside, and that at the first index behind the tokens. -/
def Ends (tokens : List Token) (start gain : Nat) {α : Type} :
    EStateM.Result Halt Cursor α → Prop
  | .ok _ reached => start + gain ≤ reached.current ∧ reached.current ≤ endIndex tokens
  | .error (.fault _) reached => start ≤ reached.current ∧ reached.current ≤ endIndex tokens
  | .error .outside reached =>
      reached.current = endIndex tokens ∧ endIndex tokens = tokens.length
  | .error .exhausted _ => False

/-- From every index between `least` and the first token for the end, a part moves the cursor
ahead by `gain`. -/
def Gains (tokens : List Token) (least gain : Nat) {α : Type} (part : Part α) : Prop :=
  ∀ cursor : Cursor, least ≤ cursor.current → cursor.current ≤ endIndex tokens →
    Ends tokens cursor.current gain (part cursor)

/-! ## Putting parts together -/

section Composition

variable {tokens : List Token} {α β : Type} {part : Part α} {next : α → Part β}
  {least further gain more : Nat}

private theorem bind_of_error {cursor reached : Cursor} {halt : Halt}
    (ends : part cursor = .error halt reached) : (part >>= next) cursor = .error halt reached := by
  show EStateM.bind part next cursor = _
  rw [EStateM.bind, ends]

private theorem Ends.mono {start middle : Nat} {result : EStateM.Result Halt Cursor α}
    (ends : Ends tokens middle more result) (earlier : start ≤ middle)
    (less : start + gain ≤ middle + more) : Ends tokens start gain result := by
  match result with
  | .ok _ reached => exact ⟨Nat.le_trans less ends.1, ends.2⟩
  | .error (.fault _) _ => exact ⟨Nat.le_trans earlier ends.1, ends.2⟩
  | .error .outside _ => exact ends
  | .error .exhausted _ => exact ends

private theorem Gains.mono (gains : Gains tokens least gain part) (later : least ≤ further)
    (less : more ≤ gain) : Gains tokens further more part := by
  intro cursor low within
  refine (gains cursor (Nat.le_trans later low) within).mono (Nat.le_refl _) ?_
  exact Nat.add_le_add_left less _

private theorem Gains.bind (first : Gains tokens least gain part)
    (others : ∀ value, Gains tokens (least + gain) more (next value)) :
    Gains tokens least (gain + more) (part >>= next) := by
  intro cursor low within
  have ends := first cursor low within
  cases isResult : part cursor with
  | ok value reached =>
      rw [isResult] at ends
      rw [bind_of_ok isResult]
      have ahead := ends.1
      refine (others value reached (by omega) ends.2).mono ?_ ?_
      · omega
      · omega
  | error halt reached =>
      rw [isResult] at ends
      rw [bind_of_error isResult]
      cases halt with
      | fault _ => exact ends
      | outside => exact ends
      | exhausted => exact ends

/-- A part that need not move the cursor leaves all the gain to the next one. -/
theorem Gains.look (first : Gains tokens least 0 part)
    (others : ∀ value, Gains tokens least gain (next value)) :
    Gains tokens least gain (part >>= next) := by
  rw [← Nat.zero_add gain]
  exact first.bind others

/-- A part that moves the cursor leaves no gain to the next one. -/
theorem Gains.step (first : Gains tokens least 1 part)
    (others : ∀ value, Gains tokens (least + 1) 0 (next value)) :
    Gains tokens least 1 (part >>= next) :=
  first.bind others

private theorem Gains.weaken (gains : Gains tokens least 1 part) : Gains tokens least 0 part :=
  gains.mono (Nat.le_refl _) (Nat.zero_le 1)

private theorem gains_pure (value : α) : Gains tokens least 0 (pure value : Part α) := by
  intro cursor _ within
  exact ⟨Nat.le_refl _, within⟩

private theorem gains_fault (fault : ParseFault) :
    Gains tokens least gain (throw (.fault fault) : Part α) := by
  intro cursor _ within
  exact ⟨Nat.le_refl _, within⟩

private theorem gains_note (some : Note) : Gains tokens least 0 (note some) := by
  intro cursor _ within
  exact ⟨Nat.le_refl _, within⟩

end Composition

/-! ## Single tokens -/

section Tokens

variable {tokens : List Token} {cursor : Cursor} {least gain : Nat} {kind : Token.Kind}

private theorem endIndex_le (tokens : List Token) : endIndex tokens ≤ tokens.length :=
  List.findIdx_le_length

private theorem getElem?_of_lt_endIndex {index : Nat} (before : index < endIndex tokens) :
    ∃ token, tokens[index]? = some token ∧ token.kind ≠ .eof := by
  have inside : index < tokens.length := Nat.lt_of_lt_of_le before (endIndex_le tokens)
  refine ⟨tokens[index], List.getElem?_eq_getElem inside, ?_⟩
  have notEnd := List.not_of_lt_findIdx before
  simpa using notEnd

/-- The first token for the end, or the lack of one. -/
private theorem getElem?_endIndex (tokens : List Token) :
    (∃ token, tokens[endIndex tokens]? = some token ∧ token.kind = .eof) ∨
      tokens[endIndex tokens]? = none ∧ endIndex tokens = tokens.length := by
  by_cases inside : endIndex tokens < tokens.length
  · refine .inl ⟨tokens[endIndex tokens], List.getElem?_eq_getElem inside, ?_⟩
    have isEnd := List.findIdx_getElem (w := inside)
    exact beq_iff_eq.mp isEnd
  · have bound := endIndex_le tokens
    refine .inr ⟨List.getElem?_eq_none (by omega), by omega⟩

private theorem peek_outside (missing : tokens[cursor.current]? = none) :
    peek tokens cursor = .error .outside cursor := by
  show look tokens cursor.current cursor = _
  rw [look, missing]
  rfl

private theorem atEnd_of_getElem? {token : Token} (found : tokens[cursor.current]? = some token) :
    atEnd tokens cursor = .ok (token.kind == .eof) cursor :=
  bind_of_ok (look_of_getElem? found)

/-- What a look at the next token finds.  Where it is for the end, or where there is none, the
cursor has come to the end. -/
private theorem check_cases (kind : Token.Kind) (within : cursor.current ≤ endIndex tokens) :
    (check tokens kind cursor = .ok true cursor ∧ cursor.current < endIndex tokens) ∨
    check tokens kind cursor = .ok false cursor ∨
    (check tokens kind cursor = .error .outside cursor ∧
      cursor.current = endIndex tokens ∧ endIndex tokens = tokens.length) := by
  by_cases before : cursor.current < endIndex tokens
  · obtain ⟨token, found, notEnd⟩ := getElem?_of_lt_endIndex before
    have checked : check tokens kind cursor = .ok (token.kind == kind) cursor := by
      rw [check, bind_of_ok (atEnd_of_getElem? found), beq_eq_false_iff_ne.mpr notEnd]
      exact bind_of_ok (look_of_getElem? found)
    cases isKind : token.kind == kind with
    | true => exact .inl ⟨checked.trans (by rw [isKind]), before⟩
    | false => exact .inr (.inl (checked.trans (by rw [isKind])))
  · have atEndIndex : cursor.current = endIndex tokens := Nat.le_antisymm within (by omega)
    rcases getElem?_endIndex tokens with ⟨token, found, isEnd⟩ | ⟨missing, noEnd⟩
    · refine .inr (.inl ?_)
      rw [← atEndIndex] at found
      rw [check, bind_of_ok (atEnd_of_getElem? found), isEnd]
      rfl
    · refine .inr (.inr ⟨?_, atEndIndex, noEnd⟩)
      rw [← atEndIndex] at missing
      exact bind_of_error (bind_of_error (peek_outside missing))

private theorem advance_of_lt (before : cursor.current < endIndex tokens) :
    ∃ token, advance tokens cursor = .ok token cursor.next := by
  obtain ⟨token, found, notEnd⟩ := getElem?_of_lt_endIndex before
  refine ⟨token, ?_⟩
  rw [advance, bind_of_ok (atEnd_of_getElem? found), beq_eq_false_iff_ne.mpr notEnd]
  have passed : Passed tokens cursor.next token := ⟨cursor.current, rfl, found⟩
  exact previous_of_passed passed

private theorem gains_peek : Gains tokens least 0 (peek tokens) := by
  intro cursor _ within
  cases found : tokens[cursor.current]? with
  | some token =>
      have peeked : peek tokens cursor = .ok token cursor := look_of_getElem? found
      rw [peeked]
      exact ⟨Nat.le_refl _, within⟩
  | none =>
      rw [peek_outside found]
      have short := List.getElem?_eq_none_iff.mp found
      have bound := endIndex_le tokens
      refine ⟨?_, ?_⟩
      · omega
      · omega

private theorem gains_atEnd : Gains tokens least 0 (atEnd tokens) :=
  gains_peek.look fun _ => gains_pure _

private theorem gains_check (kind : Token.Kind) : Gains tokens least 0 (check tokens kind) := by
  refine gains_atEnd.look ?_
  intro isEnd
  cases isEnd with
  | true => exact gains_pure false
  | false => exact gains_peek.look fun _ => gains_pure _

/-- Behind the first token there is one in front of the cursor. -/
private theorem gains_previous : Gains tokens 1 0 (previous tokens) := by
  intro cursor low within
  obtain ⟨index, isNext⟩ : ∃ index, cursor.current = index + 1 := ⟨cursor.current - 1, by omega⟩
  obtain ⟨token, found, -⟩ := getElem?_of_lt_endIndex (show index < endIndex tokens by omega)
  have passed : Passed tokens cursor token := ⟨index, isNext, found⟩
  rw [previous_of_passed passed]
  exact ⟨Nat.le_refl _, within⟩

private theorem gains_advance : Gains tokens 1 0 (advance tokens) := by
  intro cursor low within
  by_cases before : cursor.current < endIndex tokens
  · obtain ⟨token, advanced⟩ := advance_of_lt before
    rw [advanced]
    exact ⟨Nat.le_succ _, before⟩
  · have atEndIndex : cursor.current = endIndex tokens := Nat.le_antisymm within (by omega)
    rcases getElem?_endIndex tokens with ⟨token, found, isEnd⟩ | ⟨missing, noEnd⟩
    · rw [← atEndIndex] at found
      rw [advance, bind_of_ok (atEnd_of_getElem? found), isEnd]
      exact gains_previous cursor low within
    · rw [← atEndIndex] at missing
      have outside : advance tokens cursor = .error .outside cursor :=
        bind_of_error (bind_of_error (peek_outside missing))
      rw [outside]
      exact ⟨atEndIndex, noEnd⟩

/-- Where a category is found, the next token is not for the end, and passing it moves the cursor
ahead. -/
private theorem gains_ifChecked {α : Type} {next : Token → Part α} {other : Part α}
    (kind : Token.Kind) (ifFound : ∀ token, Gains tokens (least + 1) 0 (next token))
    (ifNot : Gains tokens least gain other) (single : gain ≤ 1) :
    Gains tokens least gain
      (check tokens kind >>= fun found =>
        if found then advance tokens >>= next else other) := by
  intro cursor low within
  rcases check_cases kind within with ⟨found, before⟩ | notFound | ⟨outside, atEndIndex, noEnd⟩
  · obtain ⟨token, advanced⟩ := advance_of_lt before
    rw [branch_of_true found, bind_of_ok advanced]
    refine (ifFound token cursor.next (Nat.succ_le_succ low) before).mono (Nat.le_succ _) ?_
    exact Nat.add_le_add_left single _
  · rw [branch_of_false notFound]
    exact ifNot cursor low within
  · rw [bind_of_error outside]
    exact ⟨atEndIndex, noEnd⟩

private theorem gains_accept (kind : Token.Kind) : Gains tokens least 0 (accept tokens kind) :=
  gains_ifChecked kind (fun _ => gains_pure true) (gains_pure false) (Nat.zero_le 1)

private theorem gains_consume (kind : Token.Kind) (expected : Expectation) :
    Gains tokens least 1 (consume tokens kind expected) := by
  have otherwise : Gains tokens least 1
      (do throw (.fault ⟨expected, ← peek tokens⟩) : Part Token) :=
    gains_peek.look fun _ => gains_fault _
  rw [consume, ← bind_pure (advance tokens)]
  exact gains_ifChecked kind gains_pure otherwise (Nat.le_refl 1)

private theorem gains_ifAccepted {α : Type} {yes other : Part α} (kind : Token.Kind)
    (ifFound : Gains tokens (least + 1) 0 yes) (ifNot : Gains tokens least gain other)
    (single : gain ≤ 1) :
    Gains tokens least gain
      (accept tokens kind >>= fun found => if found then yes else other) := by
  have passing :
      (accept tokens kind >>= fun found => if found then yes else other) =
        check tokens kind >>= fun found =>
          if found then advance tokens >>= fun _ => yes else other := by
    rw [accept, bind_assoc]
    congr
    funext found
    cases found with
    | true => exact bind_assoc (advance tokens) _ _
    | false => rfl
  rw [passing]
  exact gains_ifChecked kind (fun _ => ifFound) ifNot single

end Tokens

/-! ## Expressions -/

section Expressions

variable {tokens : List Token} {least : Nat}

private theorem gains_previousBehind : Gains tokens (least + 1) 0 (previous tokens) :=
  gains_previous.mono (Nat.le_add_left 1 least) (Nat.le_refl 0)

private theorem gains_primary : Gains tokens least 1 (primary tokens) := by
  refine gains_ifAccepted .string ?_ ?_ (Nat.le_refl 1)
  · exact gains_previousBehind.look fun _ => gains_pure _
  refine gains_ifAccepted .identifier ?_ ?_ (Nat.le_refl 1)
  · exact gains_previousBehind.look fun _ => gains_pure _
  · exact gains_peek.look fun _ => gains_fault _

/-- The fuel bounds how far the cursor may be from the end. -/
private theorem gains_further {kind : Token.Kind} {operator : Bytes} {item : Part Node}
    (itemGains : ∀ least, Gains tokens least 1 item) (fuel : Nat) (left : Node) :
    Gains tokens (endIndex tokens + 1 - fuel) 0
      (further tokens kind operator item fuel left) := by
  induction fuel generalizing left with
  | zero =>
      intro cursor low within
      omega
  | succ fuel inductionHypothesis =>
      refine gains_ifAccepted kind ?_ (gains_pure left) (Nat.zero_le 1)
      refine gains_previousBehind.look ?_
      intro token
      refine ((itemGains _).step ?_).weaken
      intro right
      exact (inductionHypothesis _).mono (by omega) (Nat.le_refl 0)

private theorem gains_concatenation : Gains tokens least 1 (concatenation tokens) := by
  refine gains_primary.step ?_
  intro left
  have bound := endIndex_le tokens
  exact (gains_further (fun _ => gains_primary) tokens.length left).mono (by omega) (Nat.le_refl 0)

private theorem gains_equality : Gains tokens least 1 (equality tokens) := by
  refine gains_concatenation.step ?_
  intro left
  have bound := endIndex_le tokens
  exact (gains_further (fun _ => gains_concatenation) tokens.length left).mono (by omega)
    (Nat.le_refl 0)

end Expressions

/-! ## Statements -/

section Statements

variable {tokens : List Token} {least : Nat} {inner : Part (List Node)}

private theorem gains_assignment (name : Token) : Gains tokens least 1 (assignment tokens name) :=
  gains_equality.step fun _ => gains_pure _

private theorem gains_typeDeclaration (name : Token) :
    Gains tokens least 1 (typeDeclaration tokens name) := by
  refine (gains_consume .typeOpen _).step ?_
  intro _
  refine (gains_consume .identifier _).weaken.look ?_
  intro type
  refine (gains_consume .typeClose _).weaken.look ?_
  intro _
  refine (gains_consume .arrow _).weaken.look ?_
  intro _
  exact gains_equality.weaken.look fun _ => gains_pure _

private theorem gains_argumentList (fuel : Nat) :
    Gains tokens (endIndex tokens + 1 - fuel) 1 (argumentList tokens fuel) := by
  induction fuel with
  | zero =>
      intro cursor low within
      omega
  | succ fuel inductionHypothesis =>
      refine gains_equality.step ?_
      intro argument
      refine gains_ifAccepted .comma ?_ (gains_pure [argument]) (Nat.zero_le 1)
      refine Gains.look (inductionHypothesis.mono (by omega) (Nat.zero_le 1)) ?_
      intro others
      exact gains_pure (argument :: others)

private theorem gains_writtenValues : Gains tokens 1 0 (writtenValues tokens) := by
  refine (gains_check .rightParen).look ?_
  intro closes
  have bound := endIndex_le tokens
  cases closes with
  | true => exact gains_pure []
  | false => exact (gains_argumentList tokens.length).mono (by omega) (Nat.zero_le 1)

private theorem gains_writeStatement : Gains tokens 1 1 (writeStatement tokens) := by
  refine gains_previous.look ?_
  intro word
  refine (gains_consume .leftParen _).step ?_
  intro _
  refine (gains_writtenValues.mono (by omega) (Nat.le_refl 0)).look ?_
  intro arguments
  exact (gains_consume .rightParen _).weaken.look fun _ => gains_pure _

/-- A block gains by its braces, whatever its statements do. -/
private theorem gains_block (innerGains : Gains tokens (least + 1) 0 inner) :
    Gains tokens least 1 (block tokens inner) := by
  refine (gains_consume .leftBrace _).step ?_
  intro brace
  refine innerGains.look ?_
  intro statements
  exact (gains_consume .rightBrace _).weaken.look fun _ => gains_pure _

private theorem gains_ifStatement (innerGains : Gains tokens (least + 1) 0 inner) :
    Gains tokens (least + 1) 1 (ifStatement tokens inner) := by
  refine gains_previousBehind.look ?_
  intro word
  refine (gains_consume .arrow _).step ?_
  intro _
  refine gains_equality.weaken.look ?_
  intro condition
  refine (gains_consume .doubleArrow _).weaken.look ?_
  intro _
  have innerLater := innerGains.mono (show least + 1 ≤ least + 1 + 1 + 1 by omega) (Nat.le_refl 0)
  exact (gains_block innerLater).weaken.look fun _ => gains_pure _

private theorem gains_expressionStatement : Gains tokens least 1 (expressionStatement tokens) :=
  gains_equality.step fun _ => gains_pure _

private theorem gains_plainStatement (innerGains : Gains tokens (least + 1) 0 inner) :
    Gains tokens least 1 (plainStatement tokens inner) := by
  refine gains_ifAccepted .ifWord ?_ ?_ (Nat.le_refl 1)
  · refine gains_previousBehind.look ?_
    intro word
    refine (gains_note _).look ?_
    intro _
    exact (gains_ifStatement innerGains).weaken
  refine gains_ifAccepted .writeWord ?_ gains_expressionStatement (Nat.le_refl 1)
  refine gains_previousBehind.look ?_
  intro word
  refine (gains_note _).look ?_
  intro _
  exact gains_writeStatement.mono (Nat.le_add_left 1 least) (Nat.zero_le 1)

private theorem gains_namedStatement (innerGains : Gains tokens (least + 1) 0 inner) (name : Token)
    :
    Gains tokens least 1 (namedStatement tokens inner name) := by
  refine gains_ifAccepted .typeMark ?_ ?_ (Nat.le_refl 1)
  · refine (gains_check .identifier).look ?_
    intro found
    cases found with
    | true => exact (gains_note _).look fun _ => (gains_assignment name).weaken
    | false => exact (gains_note _).look fun _ => (gains_typeDeclaration name).weaken
  refine gains_ifAccepted .arrow ?_ ?_ (Nat.le_refl 1)
  · exact (gains_note _).look fun _ => (gains_assignment name).weaken
  · exact (gains_note _).look fun _ => gains_plainStatement innerGains

private theorem gains_declaration (innerGains : Gains tokens (least + 1) 0 inner) :
    Gains tokens least 1 (declaration tokens inner) := by
  refine gains_ifAccepted .comment ?_ ?_ (Nat.le_refl 1)
  · exact gains_previousBehind.look fun _ => gains_pure _
  refine gains_ifChecked .identifier ?_ (gains_plainStatement innerGains) (Nat.le_refl 1)
  intro name
  refine (gains_note _).look ?_
  intro _
  have innerLater := innerGains.mono (Nat.le_succ _) (Nat.le_refl 0)
  exact (gains_namedStatement innerLater name).weaken

/-- Each statement of a block brings the cursor nearer to the end, so that the fuel left is
enough for the others and for the blocks within them. -/
private theorem gains_blockStatements (fuel : Nat) :
    Gains tokens (endIndex tokens + 1 - fuel) 0 (blockStatements tokens fuel) := by
  induction fuel with
  | zero =>
      intro cursor low within
      omega
  | succ fuel inductionHypothesis =>
      have others := inductionHypothesis.mono
        (show endIndex tokens + 1 - fuel ≤ endIndex tokens + 1 - (fuel + 1) + 1 by omega)
        (Nat.le_refl 0)
      refine (gains_check .rightBrace).look ?_
      intro closes
      cases closes with
      | true => exact gains_pure []
      | false =>
          refine gains_atEnd.look ?_
          intro ends
          cases ends with
          | true => exact gains_pure []
          | false =>
              refine ((gains_declaration others).step ?_).weaken
              intro statement
              exact others.look fun _ => gains_pure _

private theorem gains_statements (fuel : Nat) :
    Gains tokens (endIndex tokens + 1 - fuel) 0 (statements tokens fuel) := by
  induction fuel with
  | zero =>
      intro cursor low within
      omega
  | succ fuel inductionHypothesis =>
      have later : endIndex tokens + 1 - fuel ≤ endIndex tokens + 1 - (fuel + 1) + 1 := by
        omega
      have innerGains := (gains_blockStatements fuel).mono later (Nat.le_refl 0)
      refine gains_atEnd.look ?_
      intro ends
      cases ends with
      | true => exact gains_pure []
      | false =>
          refine ((gains_declaration innerGains).step ?_).weaken
          intro statement
          exact (inductionHypothesis.mono later (Nat.le_refl 0)).look fun _ => gains_pure _

end Statements

/-! ## Whole descents -/

/-- From every index between `least` and the first token for the end, a part comes to a value and
has moved the cursor ahead by `gain`, or it halts with a fault and has not moved the cursor back.
In both cases it has not moved the cursor behind that token. -/
def Moves (tokens : List Token) (least gain : Nat) {α : Type} (part : Part α) : Prop :=
  ∀ cursor : Cursor, least ≤ cursor.current → cursor.current ≤ endIndex tokens →
    (∃ value reached,
      part cursor = .ok value reached ∧
      cursor.current + gain ≤ reached.current ∧ reached.current ≤ endIndex tokens) ∨
    ∃ fault reached,
      part cursor = .error (.fault fault) reached ∧
      cursor.current ≤ reached.current ∧ reached.current ≤ endIndex tokens

/-- All parts of a descent keep the cursor within the tokens up to the end.  The statements of a
block have fuel for as many tokens as are left. -/
structure Steady (tokens : List Token) : Prop where
  peek : Moves tokens 0 0 (peek tokens)
  previous : Moves tokens 1 0 (previous tokens)
  atEnd : Moves tokens 0 0 (atEnd tokens)
  advance : Moves tokens 1 0 (advance tokens)
  check : ∀ kind, Moves tokens 0 0 (check tokens kind)
  accept : ∀ kind, Moves tokens 0 0 (accept tokens kind)
  consume : ∀ kind expected, Moves tokens 0 1 (consume tokens kind expected)
  primary : Moves tokens 0 1 (primary tokens)
  concatenation : Moves tokens 0 1 (concatenation tokens)
  equality : Moves tokens 0 1 (equality tokens)
  writeStatement : Moves tokens 1 1 (writeStatement tokens)
  ifStatement : ∀ fuel,
    Moves tokens (endIndex tokens - fuel + 1) 1
      (ifStatement tokens (blockStatements tokens fuel))
  block : ∀ fuel,
    Moves tokens (endIndex tokens - fuel) 1 (block tokens (blockStatements tokens fuel))
  declaration : ∀ fuel,
    Moves tokens (endIndex tokens - fuel) 1 (declaration tokens (blockStatements tokens fuel))
  blockStatements : ∀ fuel,
    Moves tokens (endIndex tokens + 1 - fuel) 0 (blockStatements tokens fuel)
  statements : ∀ fuel, Moves tokens (endIndex tokens + 1 - fuel) 0 (statements tokens fuel)

section Descents

variable {tokens : List Token} {least gain : Nat}

/-- Where a token is for the end, no part looks outside. -/
theorem Gains.moves {α : Type} {part : Part α} (gains : Gains tokens least gain part)
    (hasEnd : endIndex tokens < tokens.length) : Moves tokens least gain part := by
  intro cursor low within
  have ends := gains cursor low within
  cases isResult : part cursor with
  | ok value reached =>
      rw [isResult] at ends
      exact .inl ⟨value, reached, rfl, ends⟩
  | error halt reached =>
      rw [isResult] at ends
      cases halt with
      | fault fault => exact .inr ⟨fault, reached, rfl, ends⟩
      | outside => exact absurd ends.2 (Nat.ne_of_lt hasEnd)
      | exhausted => exact ends.elim

private theorem steady_of_lt (hasEnd : endIndex tokens < tokens.length) : Steady tokens := by
  have innerGains (fuel : Nat) :
      Gains tokens (endIndex tokens - fuel + 1) 0 (blockStatements tokens fuel) :=
    (gains_blockStatements fuel).mono (by omega) (Nat.le_refl 0)
  exact {
    peek := gains_peek.moves hasEnd
    previous := gains_previous.moves hasEnd
    atEnd := gains_atEnd.moves hasEnd
    advance := gains_advance.moves hasEnd
    check := fun kind => (gains_check kind).moves hasEnd
    accept := fun kind => (gains_accept kind).moves hasEnd
    consume := fun kind expected => (gains_consume kind expected).moves hasEnd
    primary := gains_primary.moves hasEnd
    concatenation := gains_concatenation.moves hasEnd
    equality := gains_equality.moves hasEnd
    writeStatement := gains_writeStatement.moves hasEnd
    ifStatement := fun fuel => (gains_ifStatement (innerGains fuel)).moves hasEnd
    block := fun fuel => (gains_block (innerGains fuel)).moves hasEnd
    declaration := fun fuel => (gains_declaration (innerGains fuel)).moves hasEnd
    blockStatements := fun fuel => (gains_blockStatements fuel).moves hasEnd
    statements := fun fuel => (gains_statements fuel).moves hasEnd }

theorem endIndex_of_append {before behind : List Token} {endToken : Token}
    (proper : ∀ token ∈ before, token.kind ≠ .eof) (isEnd : endToken.kind = .eof) :
    endIndex (before ++ endToken :: behind) = before.length := by
  have noEnd : before.findIdx (·.kind == .eof) = before.length := by
    rw [List.findIdx_eq_length]
    intro token member
    exact beq_eq_false_iff_ne.mpr (proper token member)
  rw [endIndex, List.findIdx_append, noEnd, if_neg (Nat.lt_irrefl _), List.findIdx_cons, isEnd]
  exact Nat.zero_add _

/-- A descent that sees the first tokens only, but the first one for the end among them, stands in
front of the same tokens as one that sees all. -/
private theorem stands_take (tokens : List Token) {bound : Nat}
    (seesEnd : (Token.beforeEnd tokens).length < bound) :
    Stands ((closed tokens).take bound) (Token.ending tokens) {} (Token.beforeEnd tokens) := by
  obtain ⟨behind, shape⟩ := exists_closed tokens
  obtain ⟨more, rfl⟩ := Nat.exists_eq_add_of_lt seesEnd
  refine ⟨⟨behind.take more, ?_⟩, fun _ => Token.kind_ne_eof_of_mem_beforeEnd,
    Token.kind_ending tokens⟩
  rw [shape, Nat.add_assoc, List.take_length_add_append]
  rfl

/-- A descent that sees fewer tokens halts where it would look at the next one. -/
private theorem current_of_outside {bound fuel : Nat} (few : bound ≤ endIndex tokens)
    (enough : endIndex tokens < fuel) {reached : Cursor}
    (outside : statements (tokens.take bound) fuel {} = .error .outside reached) :
    reached.current = bound := by
  have isBound : endIndex (tokens.take bound) = bound := by
    rw [endIndex, List.findIdx_take]
    exact Nat.min_eq_left few
  have gains : Gains (tokens.take bound) 0 0 (statements (tokens.take bound) fuel) :=
    (gains_statements fuel).mono (by omega) (Nat.le_refl 0)
  have ends := gains {} (Nat.zero_le _) (Nat.zero_le _)
  rw [outside] at ends
  exact ends.1.trans isBound

end Descents

/-- The parts of a descent never look outside of the tokens, never pass the first one for the end
and never go back, and the loops among them end.  A whole descent takes all it needs to know from
the tokens up to that one, and looks at them one after the other. -/
theorem descent_within_end (tokens : List Token) :
    let all := closed tokens
    (∃ endToken, all[endIndex all]? = some endToken ∧ endToken.kind = .eof) ∧
    (∀ index < endIndex all, ∃ token, all[index]? = some token ∧ token.kind ≠ .eof) ∧
    Steady all ∧
    (∀ fuel bound, endIndex all < fuel → endIndex all < bound →
      reading? (statements (all.take bound) fuel {}) = some (readTokens tokens)) ∧
    ∀ fuel bound reached, endIndex all < fuel → bound ≤ endIndex all →
      statements (all.take bound) fuel {} = .error .outside reached → reached.current = bound := by
  intro all
  obtain ⟨behind, shape⟩ := exists_closed tokens
  have isIndex : endIndex all = (Token.beforeEnd tokens).length := by
    rw [show all = _ from shape]
    exact endIndex_of_append (fun _ => Token.kind_ne_eof_of_mem_beforeEnd)
      (Token.kind_ending tokens)
  have found : all[endIndex all]? = some (Token.ending tokens) := by
    rw [isIndex, show all = _ from shape, List.getElem?_append_right (Nat.le_refl _), Nat.sub_self]
    rfl
  have hasEnd : endIndex all < all.length := (List.getElem?_eq_some_iff.mp found).1
  refine ⟨⟨_, found, Token.kind_ending tokens⟩, fun _ => getElem?_of_lt_endIndex,
    steady_of_lt hasEnd, ?_, ?_⟩
  · intro fuel bound enough seesEnd
    rw [isIndex] at enough seesEnd
    exact reading?_of_stands (stands_take tokens seesEnd) enough
  · intro fuel bound reached enough few outside
    exact current_of_outside few enough outside

/-- Of the tokens of `write(x` the first two are not enough: the third one is looked at next. -/
theorem descent_within_end_openWrite :
    endIndex (closed openWrite) = 3 ∧
    ∃ reached,
      statements ((closed openWrite).take 2) 4 {} = .error .outside reached ∧
      reached.current = 2 := by
  obtain ⟨-, -, -, -, halts⟩ := descent_within_end openWrite
  have isIndex : endIndex (closed openWrite) = 3 := rfl
  have outside :
      statements ((closed openWrite).take 2) 4 {} = .error .outside ⟨2, [.write 1]⟩ := rfl
  exact ⟨isIndex, _, outside, halts 4 2 _ (by decide) (by decide) outside⟩

end Descent

end TriforceScript
