import TriforceScript.Proofs.Descent.Parts

/-!
# Expressions by descent

A descent and the reader go through the same tokens side by side.  Wherever a part of the
descent comes to a value, the reader is in the state that belongs to it, and the rest of the
tokens is read from there.  Wherever a part halts, it does so with the fault and the notes of
the reading; it never looks outside of the tokens and never goes on for too long.
-/

namespace TriforceScript

namespace Descent

open Reader (State Stage Purpose Waiting joinOperator compareOperator)

/-! ## Parts and readings -/

/-- A part comes to a value that meets the goal, or it halts with the fault and the notes of the
reading. -/
def Agrees (reading : Reading) {α : Type} (goal : α → Cursor → Prop) :
    EStateM.Result Halt Cursor α → Prop
  | .ok value cursor => goal value cursor
  | .error (.fault fault) cursor => reading = ⟨cursor.notes.reverse, .error fault⟩
  | .error _ _ => False

theorem Agrees.bind {reading : Reading} {α β : Type} {part : Part α} {next : α → Part β}
    {cursor : Cursor} {middle : α → Cursor → Prop} {goal : β → Cursor → Prop}
    (first : Agrees reading middle (part cursor))
    (others : ∀ value reached, middle value reached → Agrees reading goal (next value reached)) :
    Agrees reading goal ((part >>= next) cursor) := by
  show Agrees reading goal (EStateM.bind part next cursor)
  rw [EStateM.bind]
  generalize part cursor = result at first
  match result with
  | .ok value reached => exact others value reached first
  | .error (.fault _) _ => exact first
  | .error .outside _ | .error .exhausted _ => exact first.elim

theorem Agrees.mono {reading : Reading} {α : Type} {first second : α → Cursor → Prop}
    {result : EStateM.Result Halt Cursor α} (agrees : Agrees reading first result)
    (weaker : ∀ value cursor, first value cursor → second value cursor) :
    Agrees reading second result := by
  match result with
  | .ok value cursor => exact weaker value cursor agrees
  | .error (.fault _) _ => exact agrees
  | .error .outside _ | .error .exhausted _ => exact agrees.elim

/-- The descent stands in front of `rest`, with the reader in `state`: they have taken the same
notes, and `reading` is what comes of the rest. -/
structure Matches (tokens : List Token) (endToken : Token) (reading : Reading) (state : State)
    (cursor : Cursor) (rest : List Token) : Prop where
  stands : Stands tokens endToken cursor rest
  notes : cursor.notes = state.notes
  isReading : reading = state.read endToken rest

section Parts

variable {tokens : List Token} {endToken : Token} {reading : Reading} {state : State}
  {cursor : Cursor} {rest : List Token}

theorem head?_cases (tokens : List Token) (kind : Token.Kind) :
    (∃ token behind, tokens = token :: behind ∧ token.kind = kind) ∨
      ∀ token ∈ tokens.head?, token.kind ≠ kind := by
  cases tokens with
  | nil =>
      refine .inr ?_
      rintro token ⟨⟩
  | cons token behind =>
      by_cases isKind : token.kind = kind
      · exact .inl ⟨token, behind, rfl, isKind⟩
      · refine .inr ?_
        rintro other ⟨⟩
        exact isKind

theorem Matches.step {token : Token} {next : State}
    (meets : Matches tokens endToken reading state cursor (token :: rest))
    (accepted : state.accept? token = some next) (sameNotes : next.notes = state.notes) :
    Matches tokens endToken reading next cursor.next rest := by
  refine ⟨meets.stands.next, meets.notes.trans sameNotes.symm, ?_⟩
  rw [meets.isReading, State.read, accepted]

/-- Where the reader cannot go on, the reading ends with the fault of the next token. -/
private theorem Matches.fault {expected : Expectation}
    (meets : Matches tokens endToken reading state cursor rest)
    (underWay : rest = [] → state.program? = none)
    (blocked : ∀ token ∈ rest.head?, state.accept? token = none)
    (expects : state.expected (rest.headD endToken) = expected)
    (noted : state.lastNotes = state.notes) :
    reading = ⟨cursor.notes.reverse, .error ⟨expected, rest.headD endToken⟩⟩ := by
  have rejected : reading = state.reject (rest.headD endToken) := by
    rw [meets.isReading]
    cases rest with
    | nil => rw [State.read, State.finish, underWay rfl, List.headD_nil]
    | cons token behind => rw [State.read, blocked token rfl, List.headD_cons]
  rw [rejected, State.reject, noted, expects, meets.notes]

/-- Where the reader goes on with one category of tokens only, a token is consumed. -/
theorem Matches.consume {kind : Token.Kind} {expected : Expectation} (go : Token → State)
    (meets : Matches tokens endToken reading state cursor rest)
    (underWay : state.program? = none)
    (only : ∀ token ∈ rest.head?,
      state.accept? token = if token.kind = kind then some (go token) else none)
    (expects : (∀ token ∈ rest.head?, token.kind ≠ kind) →
      state.expected (rest.headD endToken) = expected)
    (noted : state.lastNotes = state.notes)
    (keeps : ∀ token, (go token).notes = state.notes) :
    Agrees reading
      (fun token reached => ∃ behind,
        rest = token :: behind ∧ Matches tokens endToken reading (go token) reached behind)
      (consume tokens kind expected cursor) := by
  rcases head?_cases rest kind with ⟨token, behind, rfl, isKind⟩ | noKind
  · have accepted : state.accept? token = some (go token) := by
      rw [only token rfl, if_pos isKind]
    rw [consume_of_mem meets.stands isKind]
    exact ⟨behind, rfl, meets.step accepted (keeps token)⟩
  · rw [consume_of_ne meets.stands noKind]
    refine meets.fault (fun _ => underWay) ?_ (expects noKind) noted
    intro token isHead
    rw [only token isHead, if_neg (noKind token isHead)]

/-! ## Expressions -/

private theorem agrees_primary {purpose : Purpose} {compared joined : Waiting}
    (meets : Matches tokens endToken reading
      (state.goto (.operand purpose compared joined)) cursor rest) :
    Agrees reading
      (fun value reached => ∃ token behind,
        rest = token :: behind ∧
        Matches tokens endToken reading
          (state.goto (.operator purpose compared (joined.complete joinOperator value)))
          reached behind)
      (primary tokens cursor) := by
  rcases head?_cases rest .string with ⟨token, behind, rfl, isString⟩ | noString
  · rw [primary, branch_of_true (accept_of_mem meets.stands isString),
      bind_of_ok (previous_of_passed meets.stands.passed)]
    refine ⟨token, behind, rfl, meets.step ?_ rfl⟩
    rw [State.accept?, State.stage_goto]
    simp [State.operand?, isString]
  rw [primary, branch_of_false (accept_of_ne meets.stands noString)]
  rcases head?_cases rest .identifier with ⟨token, behind, rfl, isName⟩ | noName
  · rw [branch_of_true (accept_of_mem meets.stands isName),
      bind_of_ok (previous_of_passed meets.stands.passed)]
    refine ⟨token, behind, rfl, meets.step ?_ rfl⟩
    rw [State.accept?, State.stage_goto]
    simp [State.operand?, isName]
  · rw [branch_of_false (accept_of_ne meets.stands noName),
      bind_of_ok (peek_of_stands meets.stands)]
    refine meets.fault (fun _ => rfl) ?_ rfl rfl
    intro token isHead
    rw [State.accept?, State.stage_goto]
    have noString := noString token isHead
    have noName := noName token isHead
    simp [State.operand?]

/-- Further items are read one after another.  What holds of the value so far and the rest of the
tokens is carried from one item to the next. -/
private theorem agrees_further {kind : Token.Kind} {operator : Bytes} {item : Part Node}
    {Holds : Node → Cursor → List Token → Prop}
    (stands : ∀ left cursor rest, Holds left cursor rest → Stands tokens endToken cursor rest)
    (step : ∀ left cursor token behind,
      Holds left cursor (token :: behind) → token.kind = kind →
      Agrees reading
        (fun right reached => ∃ others,
          others.length < behind.length ∧
          Holds (.binary operator left right token.pos) reached others)
        (item cursor.next))
    {fuel : Nat} {left : Node} {cursor : Cursor} {rest : List Token}
    (holds : Holds left cursor rest) (enough : rest.length < fuel) :
    Agrees reading
      (fun value reached => ∃ others,
        others.length ≤ rest.length ∧ Holds value reached others ∧
        ∀ token ∈ others.head?, token.kind ≠ kind)
      (further tokens kind operator item fuel left cursor) := by
  induction fuel generalizing left cursor rest with
  | zero =>
      exact absurd enough (Nat.not_lt_zero _)
  | succ fuel inductionHypothesis =>
      rw [further]
      rcases head?_cases rest kind with ⟨token, behind, rfl, isKind⟩ | noKind
      · have isPlace := stands left cursor _ holds
        rw [branch_of_true (accept_of_mem isPlace isKind),
          bind_of_ok (previous_of_passed isPlace.passed)]
        apply Agrees.bind (step left cursor token behind holds isKind)
        rintro right reached ⟨others, shorter, holdsNext⟩
        rw [List.length_cons] at enough
        apply (inductionHypothesis holdsNext (by omega)).mono
        rintro value final ⟨last, noLonger, holdsLast, noKind⟩
        refine ⟨last, ?_, holdsLast, noKind⟩
        rw [List.length_cons]
        omega
      · rw [branch_of_false (accept_of_ne (stands left cursor rest holds) noKind)]
        exact ⟨rest, Nat.le_refl _, holds, noKind⟩

private theorem agrees_concatenation {purpose : Purpose} {compared : Waiting}
    (meets : Matches tokens endToken reading
      (state.goto (.operand purpose compared none)) cursor rest) :
    Agrees reading
      (fun value reached => ∃ others,
        others.length < rest.length ∧ (∀ token ∈ others.head?, token.kind ≠ .arrow) ∧
        Matches tokens endToken reading (state.goto (.operator purpose compared value))
          reached others)
      (concatenation tokens cursor) := by
  rw [concatenation]
  apply Agrees.bind (agrees_primary meets)
  rintro left reached ⟨token, behind, rfl, meetsLeft⟩
  let Holds (left : Node) (cursor : Cursor) (rest : List Token) : Prop :=
    Matches tokens endToken reading (state.goto (.operator purpose compared left)) cursor rest
  have step (left : Node) (cursor : Cursor) (token : Token) (behind : List Token)
      (holds : Holds left cursor (token :: behind)) (isArrow : token.kind = .arrow) :
      Agrees reading
        (fun right reached => ∃ others,
          others.length < behind.length ∧
          Holds (.binary joinOperator left right token.pos) reached others)
        (primary tokens cursor.next) := by
    have accepted :
        (state.goto (.operator purpose compared left)).accept? token =
          some (state.goto (.operand purpose compared (some (left, token.pos)))) := by
      simp [State.accept?, State.operator?, isArrow]
    apply (agrees_primary (holds.step accepted rfl)).mono
    rintro right reached ⟨first, others, rfl, meetsRight⟩
    exact ⟨others, Nat.lt_succ_self _, meetsRight⟩
  apply (agrees_further (fun _ _ _ holds => holds.stands) step meetsLeft
    meetsLeft.stands.length_lt).mono
  rintro value final ⟨others, noLonger, holds, noArrow⟩
  exact ⟨others, Nat.lt_succ_of_le noLonger, noArrow, holds⟩

/-- An expression is read up to its value, behind which no operator stands. -/
theorem agrees_equality {purpose : Purpose}
    (meets : Matches tokens endToken reading
      (state.goto (.operand purpose none none)) cursor rest) :
    Agrees reading
      (fun value reached => ∃ others compared joined,
        others.length < rest.length ∧ Token.Stops others ∧
        Waiting.complete compareOperator joined compared = value ∧
        Matches tokens endToken reading (state.goto (.operator purpose compared joined))
          reached others)
      (equality tokens cursor) := by
  rw [equality]
  apply Agrees.bind (agrees_concatenation meets)
  rintro left reached ⟨behind, shorter, noArrow, meetsLeft⟩
  let Holds (left : Node) (cursor : Cursor) (rest : List Token) : Prop :=
    ∃ compared joined,
      (∀ token ∈ rest.head?, token.kind ≠ .arrow) ∧
      Waiting.complete compareOperator joined compared = left ∧
      Matches tokens endToken reading (state.goto (.operator purpose compared joined)) cursor rest
  have stands (left : Node) (cursor : Cursor) (rest : List Token)
      (holds : Holds left cursor rest) : Stands tokens endToken cursor rest := by
    obtain ⟨compared, joined, -, -, meets⟩ := holds
    exact meets.stands
  have step (left : Node) (cursor : Cursor) (token : Token) (behind : List Token)
      (holds : Holds left cursor (token :: behind)) (isEquals : token.kind = .equalsEquals) :
      Agrees reading
        (fun right reached => ∃ others,
          others.length < behind.length ∧
          Holds (.binary compareOperator left right token.pos) reached others)
        (concatenation tokens cursor.next) := by
    obtain ⟨compared, joined, -, rfl, meets⟩ := holds
    let value := Waiting.complete compareOperator joined compared
    have accepted :
        (state.goto (.operator purpose compared joined)).accept? token =
          some (state.goto (.operand purpose (some (value, token.pos)) none)) := by
      simp [State.accept?, State.operator?, isEquals, value]
    apply (agrees_concatenation (meets.step accepted rfl)).mono
    rintro right reached ⟨others, shorter, noArrow, meetsRight⟩
    exact ⟨others, shorter, some (value, token.pos), right, noArrow, rfl, meetsRight⟩
  apply (agrees_further stands step ⟨none, left, noArrow, rfl, meetsLeft⟩
    meetsLeft.stands.length_lt).mono
  rintro value final ⟨others, noLonger, ⟨compared, joined, noArrow, whole, meetsValue⟩, noEquals⟩
  exact ⟨others, compared, joined, by omega,
    fun token isHead => ⟨noArrow token isHead, noEquals token isHead⟩, whole, meetsValue⟩

end Parts

end Descent

end TriforceScript
