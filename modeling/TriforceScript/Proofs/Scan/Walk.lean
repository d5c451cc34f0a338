import TriforceScript.Proofs.Scan.Classes
import TriforceScript.Proofs.Scan.Longest

/-!
# Walking through a source

A second way to scan a source: a walker goes through it by byte indices, decodes the glyph at an
index, slices the texts of tokens out of the source and keeps a record of all this.  A loop that
goes on for too long halts the walk.
-/

namespace TriforceScript

namespace Walk

/-- What a walker does that could reach beyond the source. -/
inductive Event where
  /-- It comes to an index, with the present lexeme from `start` on. -/
  | stand (start pos : Nat)
  /-- It decodes the glyph at an index. -/
  | decode (index width : Nat)
  | slice (first last : Nat)
  /-- It takes the value of a string. -/
  | value (start pos : Nat)
  /-- It takes the text of a comment. -/
  | remark (start pos : Nat)
  deriving DecidableEq, Repr

/-- Whether an event stays within the source. -/
def Event.Safe (source : Bytes) : Event → Prop
  | .stand start pos => start ≤ pos ∧ pos ≤ source.length
  | .decode index width => 0 < width ∧ index + width ≤ source.length
  | .slice first last => first ≤ last ∧ last ≤ source.length
  | .value start pos => start + 1 ≤ pos - 1
  | .remark start pos => start + 3 ≤ pos ∧ (source.drop start).take 3 = utf8 "/_\\"

structure Walker where
  /-- The index where the present lexeme starts. -/
  start : Nat := 0
  /-- The index of the next byte. -/
  pos : Nat := 0
  /-- The place in front of the next byte. -/
  place : Position := .start
  /-- The tokens made, the latest first. -/
  tokens : List Token := []
  /-- All that has been done, the latest first. -/
  events : List Event := []
  deriving DecidableEq, Repr

inductive Halt where
  /-- A text that has no tokens. -/
  | fault (fault : ScanFault)
  /-- A loop that goes on for too long. -/
  | exhausted
  deriving DecidableEq, Repr

/-- A part of a walk, which moves the walker and comes to a value or halts. -/
abbrev Part := EStateM Halt Walker

def record (event : Event) : Part Unit :=
  modify fun walker => { walker with events := event :: walker.events }

/-- Changes the walker, and records where it stands then. -/
def move (change : Walker → Walker) : Part Unit := do
  modify change
  let walker ← get
  record (.stand walker.start walker.pos)

/-- The glyph at the front of a text and its width.  An empty text is read as U+FFFD, which has no
width there. -/
def decoded : Bytes → Glyph × Nat
  | [] => (.char (Char.ofNat 0xFFFD), 0)
  | first :: rest => (Glyph.front first rest, (Glyph.front first rest).width)

section Parts

variable (source : Bytes)

/-! ## Single glyphs -/

def slice (first last : Nat) : Part Bytes := do
  record (.slice first last)
  return (source.drop first).take (last - first)

def decode (index : Nat) : Part (Glyph × Nat) := do
  let text ← slice source index source.length
  record (.decode index (decoded text).2)
  return decoded text

def decodeNext : Part (Glyph × Nat) := do
  decode source (← get).pos

def atEnd : Part Bool := do
  return source.length ≤ (← get).pos

def advance : Part Glyph := do
  let (glyph, width) ← decodeNext source
  move fun walker =>
    { walker with pos := walker.pos + width, place := walker.place.step glyph }
  return glyph

/-- The next character, or NUL at the end. -/
def peek : Part Char := do
  if ← atEnd source then
    return '\x00'
  else
    return (← decodeNext source).1.shown

/-- The character behind the next one, or NUL at the end. -/
def peekNext : Part Char := do
  if ← atEnd source then
    return '\x00'
  else
    let (_, width) ← decodeNext source
    let walker ← get
    if source.length ≤ walker.pos + width then
      return '\x00'
    else
      return (← decode source (walker.pos + width)).1.shown

/-- Passes the next glyph if it is the expected character. -/
def accept (expected : Char) : Part Bool := do
  if ← atEnd source then
    return false
  else if (← peek source) != expected then
    return false
  else
    let _ ← advance source
    return true

/-- Passes glyphs as long as a test holds. -/
def passWhile (test : Part Bool) : Nat → Part Unit
  | 0 => throw .exhausted
  | fuel + 1 => do
      if ← test then
        let _ ← advance source
        passWhile test fuel
      else
        return ()

def sees (keep : Char → Bool) : Part Bool := do
  return keep (← peek source)

/-- Whether there is a next character that is not the given one. -/
def seesOther (mark : Char) : Part Bool := do
  if (← peek source) != mark then
    return !(← atEnd source)
  else
    return false

/-! ## Lexemes -/

def emitText (kind : Token.Kind) (text : Bytes) : Part Unit :=
  modify fun walker => { walker with tokens := ⟨kind, text, walker.place⟩ :: walker.tokens }

def emit (kind : Token.Kind) : Part Unit := do
  let walker ← get
  emitText kind (← slice source walker.start walker.pos)

/-- Halts with a fault in the present line. -/
def refuse (fault : Int → ScanFault) : Part Unit := do
  throw (.fault (fault (← get).place.line))

def closeString : Part Unit := do
  let _ ← advance source
  let walker ← get
  record (.value walker.start walker.pos)
  emitText .string (← slice source (walker.start + 1) (walker.pos - 1))

def scanString : Part Unit := do
  passWhile source (seesOther source '"') (source.length + 1)
  if ← atEnd source then
    refuse .unterminated
  else
    closeString source

def scanComment : Part Unit := do
  passWhile source (seesOther source '\n') (source.length + 1)
  let walker ← get
  record (.remark walker.start walker.pos)
  emitText .comment (← slice source (walker.start + 3) walker.pos).trim

def passDigits : Part Unit :=
  passWhile source (sees source Char.isDigit) (source.length + 1)

def scanFraction : Part Unit := do
  if (← peek source) == '.' then
    if (← peekNext source).isDigit then
      let _ ← advance source
      passDigits source
    else
      return ()
  else
    return ()

def scanNumber : Part Unit := do
  passDigits source
  scanFraction source
  emit source .number

def scanWord : Part Unit := do
  passWhile source (sees source fun value => isLetter value || value.isDigit) (source.length + 1)
  let walker ← get
  let text ← slice source walker.start walker.pos
  emitText (.ofWord text) text

/-- A mark of two characters, if the second one follows. -/
def scanPair (second : Char) (kind : Token.Kind) (alone : Part Unit) : Part Unit := do
  if ← accept source second then
    emit source kind
  else
    alone

def scanSlash : Part Unit := do
  if ← accept source '_' then
    if ← accept source '\\' then
      scanComment source
    else
      return ()
  else
    return ()

/-- A lexeme whose first glyph has been passed already. -/
def scanBehind (glyph : Glyph) : Part Unit := do
  match glyph.shown with
  | '(' => emit source .leftParen
  | ')' => emit source .rightParen
  | '{' => emit source .leftBrace
  | '}' => emit source .rightBrace
  | '[' => emit source .typeOpen
  | ']' => emit source .typeClose
  | ',' => emit source .comma
  | ';' => emit source .semicolon
  | ':' => scanPair source ':' .typeMark (return ())
  | '=' =>
      scanPair source '=' .equalsEquals <|
        scanPair source '>' .doubleArrow (emit source .equals)
  | '-' => scanPair source '>' .arrow (return ())
  | '"' => scanString source
  | '/' => scanSlash source
  | ' ' | '\r' | '\t' | '\n' => return ()
  | value =>
      if value.isDigit then
        scanNumber source
      else if isLetter value then
        scanWord source
      else
        refuse (.unexpected glyph)

def scanLexeme : Part Unit := do
  scanBehind source (← advance source)

/-! ## Whole sources -/

def scanLexemes : Nat → Part (List Token)
  | 0 => throw .exhausted
  | fuel + 1 => do
      if ← atEnd source then
        emitText .eof []
        return (← get).tokens.reverse
      else
        move fun walker => { walker with start := walker.pos }
        scanLexeme source
        scanLexemes fuel

def walk : EStateM.Result Halt Walker (List Token) :=
  scanLexemes source (source.length + 1) { events := [.stand 0 0] }

end Parts

def reached {α : Type} : EStateM.Result Halt Walker α → Walker
  | .ok _ walker => walker
  | .error _ walker => walker

/-- What comes of a walk, unless it goes on for too long. -/
def tokens? : EStateM.Result Halt Walker (List Token) → Option (Except ScanFault (List Token))
  | .ok tokens _ => some (.ok tokens)
  | .error (.fault fault) _ => some (.error fault)
  | .error .exhausted _ => none

/-! ## Walkers within the source -/

def Walker.ahead (source : Bytes) (walker : Walker) : Bytes :=
  source.drop walker.pos

/-- All that a walker has done stays within the source. -/
def Walker.Safe (source : Bytes) (walker : Walker) : Prop :=
  ∀ event ∈ walker.events, event.Safe source

/-- A walker stands within the source. -/
structure Sound (source : Bytes) (walker : Walker) : Prop where
  start_le : walker.start ≤ walker.pos
  pos_le : walker.pos ≤ source.length

/-- A walker passes `text`, glyph by glyph, and makes no token. -/
structure Passes (source : Bytes) (before : Walker) (text : Bytes) (after : Walker) : Prop where
  aligned : (before.ahead source).glyphs = text.glyphs ++ (after.ahead source).glyphs
  place : after.place = before.place.advance text
  start : after.start = before.start
  tokens : after.tokens = before.tokens
  sound : Sound source after
  safe : before.Safe source → after.Safe source

def Walker.recording (walker : Walker) (event : Event) : Walker :=
  { walker with events := event :: walker.events }

section Passing

variable {source text more : Bytes} {before middle after : Walker} {event : Event}

private theorem Sound.passes (sound : Sound source before) : Passes source before [] before :=
  ⟨rfl, rfl, rfl, rfl, sound, id⟩

namespace Passes

theorem ahead (passes : Passes source before text after) :
    before.ahead source = text ++ after.ahead source := by
  have bytes := congrArg Bytes.ofGlyphs passes.aligned
  rwa [Bytes.ofGlyphs_append, Bytes.ofGlyphs_glyphs, Bytes.ofGlyphs_glyphs,
    Bytes.ofGlyphs_glyphs] at bytes

theorem ahead_of_append {rest : Bytes} (passes : Passes source before text after)
    (shape : before.ahead source = text ++ rest) : after.ahead source = rest :=
  List.append_cancel_left (passes.ahead.symm.trans shape)

theorem ahead_eq (passes : Passes source before [] after) :
    after.ahead source = before.ahead source :=
  passes.ahead_of_append rfl

theorem pos_eq (passes : Passes source before text after) (sound : Sound source before) :
    after.pos = before.pos + text.length := by
  have lengths := congrArg List.length passes.ahead
  rw [Walker.ahead, Walker.ahead, List.length_append, List.length_drop, List.length_drop] at lengths
  have afterBound := passes.sound.pos_le
  have beforeBound := sound.pos_le
  omega

/-- Texts that are passed one after the other are read one after the other. -/
private theorem glyphs_append (first : Passes source before text middle)
    (second : Passes source middle more after) :
    Bytes.glyphs (text ++ more) = text.glyphs ++ more.glyphs := by
  have reads := (before.ahead source).readAs_glyphs
  rw [first.aligned, second.aligned, ← List.append_assoc] at reads
  have readsBoth := reads.left
  rw [Bytes.ofGlyphs_append, Bytes.ofGlyphs_glyphs, Bytes.ofGlyphs_glyphs] at readsBoth
  exact readsBoth.glyphs_eq

theorem trans (first : Passes source before text middle)
    (second : Passes source middle more after) : Passes source before (text ++ more) after := by
  have both := first.glyphs_append second
  refine ⟨?_, ?_, second.start.trans first.start, second.tokens.trans first.tokens, second.sound,
    second.safe ∘ first.safe⟩
  · rw [first.aligned, second.aligned, both, List.append_assoc]
  · rw [second.place, first.place, Position.advance, Position.advance, Position.advance, both,
      List.foldl_append]

theorem still (first : Passes source before text middle)
    (second : Passes source middle [] after) : Passes source before text after := by
  rw [← List.append_nil text]
  exact first.trans second

private theorem recording (passes : Passes source before text after) (safe : event.Safe source) :
    Passes source before text (after.recording event) := by
  refine ⟨passes.aligned, passes.place, passes.start, passes.tokens,
    ⟨passes.sound.start_le, passes.sound.pos_le⟩, ?_⟩
  intro isSafe
  exact List.forall_mem_cons.mpr ⟨safe, passes.safe isSafe⟩

end Passes

end Passing

/-- A part comes to a value after it has passed `text`. -/
def Comes (source : Bytes) {α : Type} (part : Part α) (before : Walker) (value : α)
    (text : Bytes) : Prop :=
  ∃ after, part before = .ok value after ∧ Passes source before text after

theorem bind_of_ok {α β : Type} {part : Part α} {next : α → Part β} {before after : Walker}
    {value : α} (ends : part before = .ok value after) :
    (part >>= next) before = next value after := by
  show EStateM.bind part next before = _
  rw [EStateM.bind, ends]

theorem bind_of_error {α β : Type} {part : Part α} {next : α → Part β} {before after : Walker}
    {halt : Halt} (ends : part before = .error halt after) :
    (part >>= next) before = .error halt after := by
  show EStateM.bind part next before = _
  rw [EStateM.bind, ends]

section Coming

variable {source text more : Bytes} {α β : Type} {part : Part α} {next : α → Part β}
  {before : Walker} {value : α} {result : β}

theorem comes_pure (sound : Sound source before) (value : α) :
    Comes source (pure value) before value [] :=
  ⟨before, rfl, sound.passes⟩

private theorem comes_get (sound : Sound source before) : Comes source get before before [] :=
  ⟨before, rfl, sound.passes⟩

theorem comes_record {event : Event} (sound : Sound source before) (safe : event.Safe source) :
    Comes source (record event) before () [] :=
  ⟨before.recording event, rfl, sound.passes.recording safe⟩

theorem Comes.bind (comes : Comes source part before value text)
    (others : ∀ after, Passes source before text after →
      Comes source (next value) after result more) :
    Comes source (part >>= next) before result (text ++ more) := by
  obtain ⟨middle, ends, passes⟩ := comes
  obtain ⟨after, endsNext, passesNext⟩ := others middle passes
  refine ⟨after, ?_, passes.trans passesNext⟩
  rw [bind_of_ok ends, endsNext]

/-- A part that passes nothing leaves the next one where it was. -/
theorem Comes.look (comes : Comes source part before value [])
    (others : ∀ after, Passes source before [] after →
      Comes source (next value) after result more) :
    Comes source (part >>= next) before result more :=
  comes.bind others

end Coming

/-! ## Looking at the source -/

section Looking

variable {source : Bytes} {before : Walker} {first : UInt8} {rest : Bytes}

theorem comes_slice (sound : Sound source before) {start stop : Nat} (ordered : start ≤ stop)
    (within : stop ≤ source.length) :
    Comes source (slice source start stop) before ((source.drop start).take (stop - start)) [] :=
  ⟨_, rfl, sound.passes.recording ⟨ordered, within⟩⟩

private theorem comes_decode (sound : Sound source before) {index : Nat}
    (shape : source.drop index = first :: rest) :
    Comes source (decode source index) before (decoded (first :: rest)) [] := by
  obtain ⟨tail, behind, isRest, bytes⟩ := Glyph.front_bytes first rest
  have lengths := congrArg List.length shape
  rw [List.length_drop, List.length_cons, isRest, List.length_append] at lengths
  have width : (decoded (first :: rest)).2 = tail.length + 1 := by
    rw [decoded, Glyph.width, bytes, List.length_cons]
  have whole : (source.drop index).take (source.length - index) = first :: rest := by
    rw [← List.length_drop, List.take_length, shape]
  have safe : (Event.decode index (decoded (first :: rest)).2).Safe source := by
    rw [Event.Safe, width]
    omega
  have sliced : Comes source (slice source index source.length) before (first :: rest) [] := by
    rw [← whole]
    exact comes_slice sound (by omega) (Nat.le_refl _)
  refine sliced.look ?_
  intro after passes
  exact ⟨_, rfl, passes.sound.passes.recording safe⟩

private theorem comes_decodeNext (sound : Sound source before)
    (shape : before.ahead source = first :: rest) :
    Comes source (decodeNext source) before (decoded (first :: rest)) [] := by
  refine (comes_get sound).look ?_
  intro after passes
  exact comes_decode passes.sound shape

theorem atEnd_apply (walker : Walker) :
    atEnd source walker = .ok (walker.ahead source).isEmpty walker := by
  have same : decide (source.length ≤ walker.pos) = (walker.ahead source).isEmpty := by
    rw [Bool.eq_iff_iff, decide_eq_true_eq, List.isEmpty_iff, Walker.ahead, List.drop_eq_nil_iff]
  rw [← same]
  rfl

theorem comes_atEnd (sound : Sound source before) :
    Comes source (atEnd source) before (before.ahead source).isEmpty [] :=
  ⟨before, atEnd_apply before, sound.passes⟩

private theorem glyphs_front (first : UInt8) (rest : Bytes) :
    (Glyph.front first rest).bytes.glyphs = [Glyph.front first rest] := by
  obtain ⟨tail, behind, rfl, bytes⟩ := Glyph.front_bytes first rest
  have reads :
      Bytes.ReadAs (first :: tail ++ behind)
        ([Glyph.front first (tail ++ behind)] ++ behind.glyphs) :=
    .cons bytes behind.readAs_glyphs
  have readsFront := reads.left
  rw [Bytes.ofGlyphs, List.flatMap_singleton] at readsFront
  exact readsFront.glyphs_eq

def Walker.behind (walker : Walker) (glyph : Glyph) : Walker :=
  { walker with pos := walker.pos + glyph.width, place := walker.place.step glyph }

private theorem passes_behind (sound : Sound source before)
    (shape : before.ahead source = first :: rest) :
    Passes source before (Glyph.front first rest).bytes
      (before.behind (Glyph.front first rest)) := by
  obtain ⟨tail, behind, rfl, bytes⟩ := Glyph.front_bytes first rest
  have width : (Glyph.front first (tail ++ behind)).width = tail.length + 1 := by
    rw [Glyph.width, bytes, List.length_cons]
  have lengths := congrArg List.length shape
  rw [Walker.ahead, List.length_drop, List.length_cons, List.length_append] at lengths
  have aheadBehind :
      (before.behind (Glyph.front first (tail ++ behind))).ahead source = behind := by
    rw [Walker.ahead, Walker.behind, ← List.drop_drop, width, ← Walker.ahead, shape,
      List.drop_succ_cons, List.drop_left]
  have startBound := sound.start_le
  refine ⟨?_, ?_, rfl, rfl, ⟨?_, ?_⟩, id⟩
  · rw [aheadBehind, shape, ← List.cons_append, Bytes.glyphs_cons bytes, glyphs_front]
    rfl
  · rw [Position.advance, glyphs_front]
    rfl
  · exact Nat.le_trans startBound (Nat.le_add_right _ _)
  · rw [Walker.behind, width]
    show before.pos + (tail.length + 1) ≤ source.length
    omega

theorem comes_advance (sound : Sound source before) (shape : before.ahead source = first :: rest) :
    Comes source (advance source) before (Glyph.front first rest)
      (Glyph.front first rest).bytes := by
  refine (comes_decodeNext sound shape).look ?_
  intro after passes
  have passesGlyph := passes_behind passes.sound (passes.ahead_eq.trans shape)
  have stands := passesGlyph.sound
  exact ⟨_, rfl, passesGlyph.recording ⟨stands.start_le, stands.pos_le⟩⟩

/-- The character at the front of a text, or NUL if there is none. -/
def seen : Bytes → Char
  | [] => '\x00'
  | first :: rest => (Glyph.front first rest).shown

theorem comes_peek (sound : Sound source before) :
    Comes source (peek source) before (seen (before.ahead source)) [] := by
  refine (comes_atEnd sound).look ?_
  intro after passes
  cases shape : before.ahead source with
  | nil =>
      exact comes_pure passes.sound _
  | cons first rest =>
      rw [List.isEmpty_cons, if_neg Bool.false_ne_true]
      refine (comes_decodeNext passes.sound (passes.ahead_eq.trans shape)).look ?_
      intro last passesLast
      exact comes_pure passesLast.sound _

/-- Behind an ASCII character the next byte is looked at. -/
theorem comes_peekNext (sound : Sound source before) (ascii : first < 0x80)
    (shape : before.ahead source = first :: rest) :
    Comes source (peekNext source) before (seen rest) [] := by
  have width : (Glyph.front first rest).width = 1 := by
    rw [Glyph.width, Glyph.front, if_pos ascii, Glyph.bytes,
      Glyph.utf8EncodeChar_ascii ascii, List.length_singleton]
  refine (comes_atEnd sound).look ?_
  intro after passes
  rw [shape, List.isEmpty_cons, if_neg Bool.false_ne_true]
  refine (comes_decodeNext passes.sound (passes.ahead_eq.trans shape)).look ?_
  intro decoding passesDecoding
  refine (comes_get passesDecoding.sound).look ?_
  intro last passesLast
  have shapeLast := (passes.trans passesDecoding).ahead_eq.trans shape
  have behind : source.drop (decoding.pos + 1) = rest := by
    rw [← List.drop_drop, ← Walker.ahead, shapeLast, List.drop_one, List.tail_cons]
  rw [width]
  cases rest with
  | nil =>
      rw [if_pos (List.drop_eq_nil_iff.mp behind)]
      exact comes_pure passesLast.sound _
  | cons second others =>
      have notEnd : ¬ source.length ≤ decoding.pos + 1 := by
        rw [← List.drop_eq_nil_iff, behind]
        exact List.cons_ne_nil second others
      rw [if_neg notEnd]
      refine (comes_decode passesLast.sound behind).look ?_
      intro final passesFinal
      exact comes_pure passesFinal.sound _

section Marks

variable {mark : UInt8} (isAscii : mark < 0x80)

include isAscii

theorem front_mark (rest : Bytes) : Glyph.front mark rest = .char (Char.ofNat mark.toNat) := by
  rw [Glyph.front, if_pos isAscii]

theorem comes_advance_mark (sound : Sound source before)
    (shape : before.ahead source = mark :: rest) :
    Comes source (advance source) before (.char (Char.ofNat mark.toNat)) [mark] := by
  have advances := comes_advance sound shape
  rwa [front_mark isAscii, Glyph.bytes, Glyph.utf8EncodeChar_ascii isAscii] at advances

theorem comes_accept (sound : Sound source before)
    (shape : before.ahead source = mark :: rest) :
    Comes source (accept source (Char.ofNat mark.toNat)) before true [mark] := by
  refine (comes_atEnd sound).look ?_
  intro after passes
  rw [shape, List.isEmpty_cons, if_neg Bool.false_ne_true]
  have shapeAfter := passes.ahead_eq.trans shape
  refine (comes_peek passes.sound).look ?_
  intro last passesLast
  have isMark : seen (after.ahead source) = Char.ofNat mark.toNat := by
    rw [shapeAfter, seen, front_mark isAscii, Glyph.shown]
  rw [isMark, if_neg (by simp)]
  have shapeLast := passesLast.ahead_eq.trans shapeAfter
  refine (comes_advance_mark isAscii passesLast.sound shapeLast).bind ?_
  intro final passesFinal
  exact comes_pure passesFinal.sound true

theorem comes_accept_of_ne (sound : Sound source before)
    (noMark : (before.ahead source).head? ≠ some mark) :
    Comes source (accept source (Char.ofNat mark.toNat)) before false [] := by
  refine (comes_atEnd sound).look ?_
  intro after passes
  cases shape : before.ahead source with
  | nil =>
      exact comes_pure passes.sound false
  | cons first rest =>
      rw [List.isEmpty_cons, if_neg Bool.false_ne_true]
      refine (comes_peek passes.sound).look ?_
      intro last passesLast
      rw [shape, List.head?_cons] at noMark
      have notMark : (first == mark) = false := by
        rw [beq_eq_false_iff_ne]
        intro isMark
        exact noMark (congrArg some isMark)
      have notSeen : (seen (after.ahead source) != Char.ofNat mark.toNat) = true := by
        rw [passes.ahead_eq, shape, seen, bne, ← (Alike.equal isAscii).test_front first rest,
          notMark, Bool.not_false]
      rw [if_pos notSeen]
      exact comes_pure passesLast.sound false

theorem comes_seesOther (sound : Sound source before) :
    Comes source (seesOther source (Char.ofNat mark.toNat)) before
      ((before.ahead source).head?.any (!· == mark)) [] := by
  refine (comes_peek sound).look ?_
  intro after passes
  cases shape : before.ahead source with
  | nil =>
      -- NUL is seen at the end, and only there does the second look stop the loop.
      by_cases isNul : (seen [] != Char.ofNat mark.toNat) = true
      · rw [if_pos isNul]
        refine (comes_atEnd passes.sound).look ?_
        intro last passesLast
        rw [passes.ahead_eq, shape]
        exact comes_pure passesLast.sound false
      · rw [if_neg isNul]
        exact comes_pure passes.sound false
  | cons first rest =>
      have same : (seen (first :: rest) != Char.ofNat mark.toNat) = !first == mark := by
        rw [seen, bne, ← (Alike.equal isAscii).test_front first rest]
      rw [same, List.head?_cons, Option.any_some]
      by_cases other : (!first == mark) = true
      · rw [if_pos other, other]
        refine (comes_atEnd passes.sound).look ?_
        intro last passesLast
        rw [passes.ahead_eq, shape]
        exact comes_pure passesLast.sound true
      · rw [if_neg other, Bool.eq_false_iff.mpr other]
        exact comes_pure passes.sound false

end Marks

theorem keep_seen {test : UInt8 → Bool} {keep : Char → Bool} (alike : Alike test keep)
    (notNul : keep '\x00' = false) (text : Bytes) : keep (seen text) = text.head?.any test := by
  cases text with
  | nil =>
      exact notNul
  | cons first rest =>
      exact (alike.test_front first rest).symm

theorem comes_sees {test : UInt8 → Bool} {keep : Char → Bool} (alike : Alike test keep)
    (notNul : keep '\x00' = false) (sound : Sound source before) :
    Comes source (sees source keep) before ((before.ahead source).head?.any test) [] := by
  refine (comes_peek sound).look ?_
  intro after passes
  rw [keep_seen alike notNul]
  exact comes_pure passes.sound _

/-- Glyphs are passed as long as their bytes are in a class. -/
theorem comes_passWhile {test : UInt8 → Bool} {keep : Char → Bool} (alike : Alike test keep)
    {part : Part Bool}
    (looks : ∀ walker, Sound source walker →
      Comes source part walker ((walker.ahead source).head?.any test) [])
    (sound : Sound source before) {fuel : Nat} (enough : (before.ahead source).length < fuel) :
    Comes source (passWhile source part fuel) before () ((before.ahead source).takeWhile test) := by
  induction fuel generalizing before with
  | zero =>
      exact absurd enough (Nat.not_lt_zero _)
  | succ fuel inductionHypothesis =>
      refine (looks before sound).look ?_
      intro after passes
      cases shape : before.ahead source with
      | nil =>
          exact comes_pure passes.sound ()
      | cons first rest =>
          rw [List.head?_cons, Option.any_some]
          by_cases passing : test first = true
          · rw [if_pos passing]
            obtain ⟨tail, behind, isRest, bytes⟩ := Glyph.front_bytes first rest
            have together : ∀ byte ∈ first :: tail, test byte = true := by
              intro byte member
              rw [alike.test_of_mem_front (bytes ▸ member), ← alike.test_front, passing]
            have taken :
                (first :: rest).takeWhile test = (first :: tail) ++ behind.takeWhile test := by
              rw [isRest, ← List.cons_append, List.takeWhile_append_of_pos together]
            have advances := comes_advance passes.sound (passes.ahead_eq.trans shape)
            rw [bytes] at advances
            rw [taken]
            refine advances.bind ?_
            intro last passesLast
            have shapeLast : last.ahead source = behind := by
              apply passesLast.ahead_of_append
              rw [passes.ahead_eq, shape, isRest, List.cons_append]
            rw [← shapeLast]
            apply inductionHypothesis passesLast.sound
            rw [shape, isRest] at enough
            rw [shapeLast]
            simp only [List.length_cons, List.length_append] at enough
            omega
          · rw [if_neg passing, List.takeWhile_cons_of_neg passing]
            exact comes_pure passes.sound ()

end Looking

end Walk

end TriforceScript
