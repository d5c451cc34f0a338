import TriforceScript.Proofs.Scan.Forms

/-!
# Expressions of JavaScript

A fragment of JavaScript: names, strings in double quotes that run to the next quote, the
binary operators `+` and `===`.  Both operators group to the left, and `+` binds tighter.
A text is read in two steps, first as symbols and then as a term of the grammar, and no
text is read as two terms.
-/

namespace TriforceScript

namespace JavaScript

open Lexical (digits letters IsWord)

/-! ## Symbols -/

inductive Symbol where
  | name (name : Bytes)
  | string (value : Bytes)
  | plus
  | strictEquals
  deriving DecidableEq, Repr

def blanks : Bytes :=
  utf8 " \t\r\n"

def nameStarts : Bytes :=
  letters ++ utf8 "$"

def nameBytes : Bytes :=
  nameStarts ++ digits

/-- The symbol at the front of a text, and what follows it. -/
def front? : Bytes → Option (Symbol × Bytes)
  | [] => none
  | first :: rest =>
      if first ∈ nameStarts then
        some (.name (first :: rest.takeWhile nameBytes.contains), rest.dropWhile nameBytes.contains)
      else if first = Bytes.quote then
        if Bytes.quote ∈ rest then
          some (.string (rest.takeWhile (· != Bytes.quote)),
            (rest.dropWhile (· != Bytes.quote)).tail)
        else
          none
      else if first = 0x2B then
        some (.plus, rest)
      else if first = 0x3D ∧ rest.take 2 = utf8 "==" then
        some (.strictEquals, rest.drop 2)
      else
        none

private theorem length_lt_of_front? {text behind : Bytes} {symbol : Symbol}
    (found : front? text = some (symbol, behind)) : behind.length < text.length := by
  unfold front? at found
  split at found
  · cases found
  · rename_i first rest
    have shorter (keep : UInt8 → Bool) : (rest.dropWhile keep).length ≤ rest.length :=
      (List.dropWhile_sublist keep).length_le
    split at found
    · cases found
      exact Nat.lt_succ_of_le (shorter _)
    split at found
    · split at found
      · cases found
        have tailLe := (List.tail_sublist (rest.dropWhile (· != Bytes.quote))).length_le
        exact Nat.lt_succ_of_le (tailLe.trans (shorter _))
      · cases found
    split at found
    · cases found
      exact Nat.lt_succ_self _
    split at found
    · cases found
      exact Nat.lt_succ_of_le (List.drop_sublist 2 rest).length_le
    · cases found

/-- The symbols of a text from left to right, with blanks between them, and what is left
where no further symbol starts. -/
def symbols (text : Bytes) : List Symbol × Bytes :=
  match found : front? (text.dropWhile blanks.contains) with
  | none => ([], text.dropWhile blanks.contains)
  | some (symbol, behind) =>
      have _shorter : behind.length < text.length :=
        (length_lt_of_front? found).trans_le (List.dropWhile_sublist _).length_le
      (symbol :: (symbols behind).1, (symbols behind).2)
termination_by text.length

/-! ## Terms -/

inductive Term where
  | name (name : Bytes)
  | string (value : Bytes)
  | sum (left right : Term)
  | strictEqual (left right : Term)
  deriving DecidableEq, Repr

inductive Term.Operand : List Symbol → Term → Prop
  | name (name : Bytes) : Operand [.name name] (.name name)
  | string (value : Bytes) : Operand [.string value] (.string value)

inductive Term.Sum : List Symbol → Term → Prop
  | operand {spelling : List Symbol} {term : Term} :
      Operand spelling term → Sum spelling term
  | sum {leftSpelling rightSpelling : List Symbol} {left right : Term} :
      Sum leftSpelling left →
      Operand rightSpelling right →
      Sum (leftSpelling ++ .plus :: rightSpelling) (.sum left right)

inductive Term.Comparison : List Symbol → Term → Prop
  | sum {spelling : List Symbol} {term : Term} :
      Sum spelling term → Comparison spelling term
  | strictEqual {leftSpelling rightSpelling : List Symbol} {left right : Term} :
      Comparison leftSpelling left →
      Sum rightSpelling right →
      Comparison (leftSpelling ++ .strictEquals :: rightSpelling) (.strictEqual left right)

/-- A whole text is read as a term. -/
def Reads (text : Bytes) (term : Term) : Prop :=
  ∃ spelling, symbols text = (spelling, []) ∧ Term.Comparison spelling term

/-! ## Unambiguity -/

/-- Where a mark stands for the first time, a list falls apart in one way. -/
theorem append_cons_inj {Item : Type} {mark : Item} {left right left' right' : List Item}
    (notLeft : mark ∉ left) (notLeft' : mark ∉ left')
    (same : left ++ mark :: right = left' ++ mark :: right') : left = left' ∧ right = right' := by
  induction left generalizing left' with
  | nil =>
      cases left' with
      | nil =>
          cases same
          exact ⟨rfl, rfl⟩
      | cons first' others' =>
          cases same
          exact (notLeft' List.mem_cons_self).elim
  | cons first others inductionHypothesis =>
      cases left' with
      | nil =>
          cases same
          exact (notLeft List.mem_cons_self).elim
      | cons first' others' =>
          obtain ⟨rfl, sameOthers⟩ := List.cons.inj same
          obtain ⟨rfl, rfl⟩ := inductionHypothesis (List.not_mem_of_not_mem_cons notLeft)
            (List.not_mem_of_not_mem_cons notLeft') sameOthers
          exact ⟨rfl, rfl⟩

namespace Term

theorem Operand.unique {spelling : List Symbol} {first second : Term}
    (readsFirst : Operand spelling first) (readsSecond : Operand spelling second) :
    first = second := by
  cases readsFirst with
  | name name =>
      cases readsSecond
      rfl
  | string value =>
      cases readsSecond
      rfl

private theorem Operand.length_eq {spelling : List Symbol} {term : Term}
    (reads : Operand spelling term) :
    spelling.length = 1 := by
  cases reads <;> rfl

private theorem Sum.ne_nil {spelling : List Symbol} {term : Term} (reads : Sum spelling term) :
    spelling ≠ [] := by
  cases reads with
  | operand reads => cases reads <;> simp
  | sum _ _ => simp

/-- A single symbol is no sum of two. -/
private theorem Operand.not_sum {before behind : List Symbol} {term left : Term}
    (reads : Operand (before ++ .plus :: behind) term) (readsLeft : Sum before left) : False := by
  have single := reads.length_eq
  have nonempty := List.length_pos_iff.mpr readsLeft.ne_nil
  rw [List.length_append, List.length_cons] at single
  omega

private theorem Sum.strictEquals_notMem {spelling : List Symbol} {term : Term}
    (reads : Sum spelling term) : Symbol.strictEquals ∉ spelling := by
  induction reads with
  | operand reads =>
      cases reads <;> simp
  | sum _ readsRight inductionHypothesis =>
      cases readsRight <;> simp [inductionHypothesis]

theorem Sum.unique {spelling : List Symbol} {first second : Term}
    (readsFirst : Sum spelling first) (readsSecond : Sum spelling second) : first = second := by
  induction readsFirst generalizing second with
  | operand readsFirst =>
      cases readsSecond with
      | operand readsSecond => exact readsFirst.unique readsSecond
      | sum readsLeft _ => exact (readsFirst.not_sum readsLeft).elim
  | @sum leftSpelling rightSpelling _ _ readsLeft readsRight inductionHypothesis =>
      generalize same : leftSpelling ++ .plus :: rightSpelling = spelling at readsSecond
      cases readsSecond with
      | operand readsSecond =>
          subst same
          exact (readsSecond.not_sum readsLeft).elim
      | sum readsLeft' readsRight' =>
          -- The right operands are single symbols, so both sums end with the same operator.
          have lengths := readsRight.length_eq.trans readsRight'.length_eq.symm
          obtain ⟨rfl, sameRight⟩ := List.append_inj' same (by simp [lengths])
          cases sameRight
          rw [inductionHypothesis readsLeft', readsRight.unique readsRight']

theorem Comparison.unique {spelling : List Symbol} {first second : Term}
    (readsFirst : Comparison spelling first) (readsSecond : Comparison spelling second) :
    first = second := by
  induction readsFirst generalizing second with
  | sum readsFirst =>
      cases readsSecond with
      | sum readsSecond => exact readsFirst.unique readsSecond
      | strictEqual _ _ => exact (readsFirst.strictEquals_notMem (by simp)).elim
  | @strictEqual leftSpelling rightSpelling _ _ readsLeft readsRight inductionHypothesis =>
      generalize same : leftSpelling ++ .strictEquals :: rightSpelling = spelling at readsSecond
      cases readsSecond with
      | sum readsSecond => exact (readsSecond.strictEquals_notMem (by simp [← same])).elim
      | strictEqual readsLeft' readsRight' =>
          -- No sum holds the operator, so both comparisons end with its last occurrence.
          have notRight := List.mem_reverse.not.mpr readsRight.strictEquals_notMem
          have notRight' := List.mem_reverse.not.mpr readsRight'.strictEquals_notMem
          have reversed := congrArg List.reverse same
          simp only [List.reverse_append, List.reverse_cons, List.append_assoc,
            List.singleton_append] at reversed
          obtain ⟨sameRight, sameLeft⟩ := append_cons_inj notRight notRight' reversed
          cases List.reverse_injective sameRight
          cases List.reverse_injective sameLeft
          rw [inductionHypothesis readsLeft', readsRight.unique readsRight']

theorem Comparison.ne_nil {spelling : List Symbol} {term : Term}
    (reads : Comparison spelling term) : spelling ≠ [] := by
  cases reads with
  | sum reads => exact reads.ne_nil
  | strictEqual _ _ => simp

end Term

theorem Reads.unique {text : Bytes} {first second : Term} (readsFirst : Reads text first)
    (readsSecond : Reads text second) : first = second := by
  obtain ⟨spelling, spelled, reads⟩ := readsFirst
  obtain ⟨spelling', spelled', reads'⟩ := readsSecond
  rw [spelled] at spelled'
  cases spelled'
  exact reads.unique reads'

/-! ## Symbols behind one another -/

private theorem symbols_of_front? {text behind : Bytes} {symbol : Symbol}
    (found : front? (text.dropWhile blanks.contains) = some (symbol, behind)) :
    symbols text = (symbol :: (symbols behind).1, (symbols behind).2) := by
  rw [symbols]
  split
  · rename_i missing
    rw [missing] at found
    cases found
  · rename_i found'
    rw [found'] at found
    cases found
    rfl

theorem symbols_of_front?_eq_none {text : Bytes}
    (missing : front? (text.dropWhile blanks.contains) = none) :
    symbols text = ([], text.dropWhile blanks.contains) := by
  rw [symbols]
  split
  · rfl
  · rename_i found
    rw [found] at missing
    cases missing

/-- The bytes of generated code that stand next to names and belong to none. -/
def marks : Bytes :=
  utf8 " \"+=;),(./"

private theorem notMem_nameBytes {byte : UInt8} (isMark : byte ∈ marks) : byte ∉ nameBytes := by
  have noMark : ∀ mark ∈ marks, mark ∉ nameBytes := by
    decide +kernel
  exact noMark byte isMark

theorem notMem_nameStarts {byte : UInt8} (isMark : byte ∈ marks) :
    byte ∉ nameStarts := by
  intro starts
  exact notMem_nameBytes isMark (List.mem_append_left _ starts)

/-- No name goes on at the front of a text. -/
def Breaks (text : Bytes) : Prop :=
  ∀ byte ∈ text.head?, byte ∉ nameBytes

/-- A text has the symbols of `spelling`, whatever follows that does not go on with its last
name. -/
def Spells (text : Bytes) (spelling : List Symbol) : Prop :=
  ∀ behind, Breaks behind →
    symbols (text ++ behind) = (spelling ++ (symbols behind).1, (symbols behind).2)

theorem breaks_cons {byte : UInt8} (isMark : byte ∈ marks) (behind : Bytes) :
    Breaks (byte :: behind) := by
  intro first isFirst
  cases isFirst
  exact notMem_nameBytes isMark

theorem Breaks.span {behind : Bytes} (breaks : Breaks behind) {name : Bytes}
    (inName : ∀ byte ∈ name, byte ∈ nameBytes) :
    (name ++ behind).takeWhile nameBytes.contains = name ∧
      (name ++ behind).dropWhile nameBytes.contains = behind := by
  have passes : ∀ byte ∈ name, nameBytes.contains byte = true := by
    intro byte member
    exact List.contains_iff_mem.mpr (inName byte member)
  rw [List.takeWhile_append_of_pos passes, List.dropWhile_append_of_pos passes]
  cases behind with
  | nil => simp
  | cons byte others =>
      have stops : ¬ nameBytes.contains byte = true := by
        simpa using breaks byte rfl
      rw [List.takeWhile_cons_of_neg stops, List.dropWhile_cons_of_neg stops]
      simp

/-- A text that ends a name in front of it has the symbols of `spelling`, whatever follows. -/
structure Separates (text : Bytes) (spelling : List Symbol) : Prop where
  breaks : ∀ behind, Breaks (text ++ behind)
  symbols_append :
    ∀ behind, symbols (text ++ behind) = (spelling ++ (symbols behind).1, (symbols behind).2)

theorem Spells.separated {left middle right : Bytes}
    {leftSpelling middleSpelling rightSpelling : List Symbol}
    (spellsLeft : Spells left leftSpelling) (separates : Separates middle middleSpelling)
    (spellsRight : Spells right rightSpelling) :
    Spells (left ++ middle ++ right) (leftSpelling ++ middleSpelling ++ rightSpelling) := by
  intro behind breaks
  rw [List.append_assoc, List.append_assoc, spellsLeft _ (separates.breaks _),
    separates.symbols_append, spellsRight behind breaks, List.append_assoc, List.append_assoc]

private theorem symbols_space (text : Bytes) : symbols (Bytes.space :: text) = symbols text := by
  have dropped : (Bytes.space :: text).dropWhile blanks.contains = text.dropWhile blanks.contains :=
    List.dropWhile_cons_of_pos (by decide)
  cases found : front? (text.dropWhile blanks.contains) with
  | none =>
      rw [symbols_of_front?_eq_none found, symbols_of_front?_eq_none (dropped ▸ found), dropped]
  | some reached =>
      rw [symbols_of_front? found, symbols_of_front? (dropped ▸ found)]

private theorem symbols_plus (behind : Bytes) :
    symbols (0x2B :: behind) = (.plus :: (symbols behind).1, (symbols behind).2) := by
  apply symbols_of_front?
  rw [List.dropWhile_cons_of_neg (by decide), front?, if_neg (notMem_nameStarts (by decide)),
    if_neg (by decide), if_pos rfl]

private theorem symbols_strictEquals (behind : Bytes) :
    symbols (utf8 "===" ++ behind) = (.strictEquals :: (symbols behind).1, (symbols behind).2) := by
  apply symbols_of_front?
  have shape : utf8 "===" ++ behind = 0x3D :: (utf8 "==" ++ behind) :=
    rfl
  have taken : (utf8 "==" ++ behind).take 2 = utf8 "==" :=
    rfl
  rw [shape, List.dropWhile_cons_of_neg (by decide), front?,
    if_neg (notMem_nameStarts (by decide)), if_neg (by decide), if_neg (by decide),
    if_pos ⟨rfl, taken⟩]
  rfl

theorem mem_nameBytes_of_isWord {word : Bytes} (isWord : IsWord word) :
    ∀ byte ∈ word, byte ∈ nameBytes := by
  obtain ⟨first, rest, rfl, isLetter, others⟩ := isWord
  intro byte member
  have inWord : byte ∈ letters ++ digits := by
    rcases List.mem_cons.mp member with rfl | inRest
    · exact List.mem_append_left _ isLetter
    · exact others byte inRest
  rcases List.mem_append.mp inWord with isLetter | isDigit
  · exact List.mem_append_left _ (List.mem_append_left _ isLetter)
  · exact List.mem_append_right _ isDigit

theorem spells_name {name : Bytes} (isWord : IsWord name) : Spells name [.name name] := by
  intro behind breaks
  have inWord := mem_nameBytes_of_isWord isWord
  obtain ⟨first, rest, rfl, isLetter, others⟩ := isWord
  have inName : ∀ byte ∈ rest, byte ∈ nameBytes := by
    intro byte member
    exact inWord byte (List.mem_cons_of_mem first member)
  have starts : first ∈ nameStarts :=
    List.mem_append_left _ isLetter
  have notBlank : ¬ blanks.contains first = true := by
    have noLetter : ∀ byte ∈ letters, ¬ blanks.contains byte = true := by
      decide +kernel
    exact noLetter first isLetter
  obtain ⟨taken, dropped⟩ := breaks.span inName
  apply symbols_of_front?
  rw [List.cons_append, List.dropWhile_cons_of_neg notBlank, front?, if_pos starts, taken, dropped]

theorem spells_string {value : Bytes} (noQuote : Bytes.quote ∉ value) :
    Spells (Bytes.quote :: value ++ [Bytes.quote]) [.string value] := by
  intro behind _
  have passes : ∀ byte ∈ value, (byte != Bytes.quote) = true := by
    intro byte member
    exact bne_iff_ne.mpr fun same => noQuote (same ▸ member)
  have taken : (value ++ Bytes.quote :: behind).takeWhile (· != Bytes.quote) = value :=
    Lexeme.takeWhile_ne_append noQuote
  have dropped :
      (value ++ Bytes.quote :: behind).dropWhile (· != Bytes.quote) = Bytes.quote :: behind := by
    rw [List.dropWhile_append_of_pos passes, List.dropWhile_cons_of_neg (by simp)]
  apply symbols_of_front?
  rw [List.append_assoc, List.cons_append, List.singleton_append,
    List.dropWhile_cons_of_neg (by decide), front?, if_neg (notMem_nameStarts (by decide)),
    if_pos rfl, if_pos (by simp), taken, dropped]
  rfl

private theorem separates_plus : Separates (utf8 " + ") [.plus] := by
  refine ⟨fun behind => breaks_cons (by decide) _, fun behind => ?_⟩
  have shape : utf8 " + " ++ behind = Bytes.space :: 0x2B :: Bytes.space :: behind :=
    rfl
  rw [shape, symbols_space, symbols_plus, symbols_space]
  rfl

/-- What stands between two texts that are joined with a blank. -/
theorem separates_joint : Separates (utf8 " + \" \" + ") [.plus, .string (utf8 " "), .plus] := by
  refine ⟨fun behind => breaks_cons (by decide) _, fun behind => ?_⟩
  have noQuote : Bytes.quote ∉ utf8 " " := by
    decide
  have shape :
      utf8 " + \" \" + " ++ behind =
        utf8 " + " ++ ((Bytes.quote :: utf8 " " ++ [Bytes.quote]) ++ (utf8 " + " ++ behind)) :=
    rfl
  rw [shape, separates_plus.symbols_append, spells_string noQuote _ (separates_plus.breaks behind),
    separates_plus.symbols_append]
  rfl

theorem separates_equality : Separates (utf8 " === ") [.strictEquals] := by
  refine ⟨fun behind => breaks_cons (by decide) _, fun behind => ?_⟩
  have shape :
      utf8 " === " ++ behind = Bytes.space :: (utf8 "===" ++ Bytes.space :: behind) :=
    rfl
  rw [shape, symbols_space, symbols_strictEquals, symbols_space]
  rfl

end JavaScript

end TriforceScript
