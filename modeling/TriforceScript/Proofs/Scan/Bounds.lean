import TriforceScript.Proofs.Scan.Walk

/-!
# Walks within bounds

A walker takes one lexeme after another, and they are the lexemes that are cut off the source.
Main statement: a walk comes to the tokens or the fault of the source, each lexeme moves the
walker ahead, and no index, no slice and no decoding on the way is outside of the source.
-/

namespace TriforceScript

namespace Walk

open Lexeme (cut Cuts Obstacle)

/-! ## Loops -/

section Loops

variable {source : Bytes} {before : Walker}

private theorem length_ahead_lt (walker : Walker) :
    (walker.ahead source).length < source.length + 1 := by
  rw [Walker.ahead, List.length_drop]
  omega

private theorem comes_passDigits (sound : Sound source before) :
    Comes source (passDigits source) before ()
      ((before.ahead source).takeWhile Lexeme.isDigit) :=
  comes_passWhile .digit (fun _ => comes_sees .digit rfl) sound (length_ahead_lt before)

private theorem comes_passOthers {mark : UInt8} (isAscii : mark < 0x80)
    (sound : Sound source before) :
    Comes source
      (passWhile source (seesOther source (Char.ofNat mark.toNat)) (source.length + 1)) before ()
      ((before.ahead source).takeWhile (· != mark)) :=
  comes_passWhile (Alike.equal isAscii).not (fun _ => comes_seesOther isAscii) sound
    (length_ahead_lt before)

private theorem fraction_eq_nil {point : UInt8} {others : Bytes}
    (none : ¬ (point = 0x2E ∧ others.head?.any Lexeme.isDigit = true)) :
    Lexeme.fraction (point :: others) = [] := by
  cases others with
  | nil =>
      rfl
  | cons digit more =>
      rw [List.head?_cons, Option.any_some] at none
      rw [Lexeme.fraction, if_neg none]

private theorem fraction_eq {others : Bytes} (isDigit : others.head?.any Lexeme.isDigit = true) :
    Lexeme.fraction (0x2E :: others) = [0x2E] ++ others.takeWhile Lexeme.isDigit := by
  cases others with
  | nil =>
      cases isDigit
  | cons digit more =>
      rw [List.head?_cons, Option.any_some] at isDigit
      rw [Lexeme.fraction, if_pos ⟨rfl, isDigit⟩, List.takeWhile_cons_of_pos isDigit]
      rfl

private theorem comes_scanFraction (sound : Sound source before) :
    Comes source (scanFraction source) before () (Lexeme.fraction (before.ahead source)) := by
  have alikePoint : Alike (· == 0x2E) (· == '.') := Alike.equal (by decide)
  refine (comes_peek sound).look ?_
  intro middle passes
  rw [keep_seen alikePoint rfl]
  cases shape : before.ahead source with
  | nil =>
      exact comes_pure passes.sound ()
  | cons point others =>
      have shapeMiddle := passes.ahead_eq.trans shape
      rw [List.head?_cons, Option.any_some]
      by_cases isPoint : point = 0x2E
      · rw [if_pos (beq_iff_eq.mpr isPoint)]
        subst isPoint
        refine (comes_peekNext passes.sound (by decide) shapeMiddle).look ?_
        intro last passesLast
        rw [keep_seen .digit rfl]
        by_cases isDigit : others.head?.any Lexeme.isDigit = true
        · rw [if_pos isDigit, fraction_eq isDigit]
          have shapeLast := passesLast.ahead_eq.trans shapeMiddle
          refine (comes_advance_mark (by decide) passesLast.sound shapeLast).bind ?_
          intro final passesFinal
          rw [← passesFinal.ahead_of_append shapeLast]
          exact comes_passDigits passesFinal.sound
        · rw [if_neg isDigit, fraction_eq_nil fun both => isDigit both.2]
          exact comes_pure passesLast.sound ()
      · rw [if_neg fun same => isPoint (beq_iff_eq.mp same),
          fraction_eq_nil fun both => isPoint both.1]
        exact comes_pure passes.sound ()

end Loops

/-! ## Lexemes and obstacles -/

/-- A walker takes a lexeme and makes its token, if it makes one. -/
structure Takes (source : Bytes) (before : Walker) (lexeme : Lexeme) (after : Walker) : Prop where
  ahead : before.ahead source = lexeme.bytes ++ after.ahead source
  place : after.place = before.place.advance lexeme.bytes
  tokens : after.tokens = (lexeme.token? after.place).toList ++ before.tokens
  sound : Sound source after
  safe : before.Safe source → after.Safe source

/-- From a walker in front of a lexeme, a part takes the lexeme, or it halts with the fault of
the obstacle. -/
def Scans (source : Bytes) (before : Walker) :
    Except Obstacle Lexeme → EStateM.Result Halt Walker Unit → Prop
  | .ok lexeme, result => ∃ after, result = .ok () after ∧ Takes source before lexeme after
  | .error obstacle, result =>
      ∃ after,
        result = .error (.fault (obstacle.fault before.place)) after ∧
        before.pos < after.pos ∧ Sound source after ∧ (before.Safe source → after.Safe source)

section Scanning

variable {source text : Bytes} {before middle : Walker} {lexeme : Lexeme}

private theorem Scans.bind {α : Type} {part : Part α} {next : α → Part Unit} {value : α}
    {outcome : Except Obstacle Lexeme} (comes : Comes source part middle value text)
    (others : ∀ after, Passes source middle text after →
      Scans source before outcome (next value after)) :
    Scans source before outcome ((part >>= next) middle) := by
  obtain ⟨after, ends, passes⟩ := comes
  rw [bind_of_ok ends]
  exact others after passes

private theorem Scans.get {next : Walker → Part Unit} {outcome : Except Obstacle Lexeme}
    (others : Scans source before outcome (next middle middle)) :
    Scans source before outcome ((EStateM.get >>= next) middle) :=
  others

private theorem Scans.accept (mark : UInt8) {outcome : Except Obstacle Lexeme}
    {followed alone : Part Unit} (isAscii : mark < 0x80) (sound : Sound source middle)
    (ifFollowed : ∀ behind after, middle.ahead source = mark :: behind →
      Passes source middle [mark] after → Scans source before outcome (followed after))
    (ifAlone : ∀ after, (middle.ahead source).head? ≠ some mark →
      Passes source middle [] after → Scans source before outcome (alone after)) :
    Scans source before outcome
      ((Walk.accept source (Char.ofNat mark.toNat) >>= fun found =>
        if found then followed else alone) middle) := by
  by_cases isMark : (middle.ahead source).head? = some mark
  · obtain ⟨behind, shape⟩ := List.head?_eq_some_iff.mp isMark
    refine Scans.bind (comes_accept isAscii sound shape) ?_
    intro after passes
    exact ifFollowed behind after shape passes
  · refine Scans.bind (comes_accept_of_ne isAscii sound isMark) ?_
    intro after passes
    exact ifAlone after isMark passes

private theorem scans_blank (passes : Passes source before lexeme.bytes middle)
    (blank : lexeme.kind? = none) :
    Scans source before (.ok lexeme) ((pure () : Part Unit) middle) := by
  refine ⟨middle, rfl, ⟨passes.ahead, passes.place, ?_, passes.sound, passes.safe⟩⟩
  rw [Lexeme.token?, blank, passes.tokens]
  rfl

private theorem scans_emitText {kind : Token.Kind}
    (passes : Passes source before lexeme.bytes middle)
    (isKind : lexeme.kind? = some kind) (isText : lexeme.text = text) :
    Scans source before (.ok lexeme) (emitText kind text middle) := by
  refine ⟨_, rfl, ⟨passes.ahead, passes.place, ?_, ?_, passes.safe⟩⟩
  · rw [Lexeme.token?, isKind, isText, ← passes.tokens]
    rfl
  · exact ⟨passes.sound.start_le, passes.sound.pos_le⟩

private theorem scans_refuse {obstacle : Obstacle} {fault : Int → ScanFault}
    (sound : Sound source before) (passes : Passes source before text middle)
    (someText : text ≠ [])
    (isFault : obstacle.fault before.place = fault (before.place.advance text).line) :
    Scans source before (.error obstacle) (refuse fault middle) := by
  have isPos := passes.pos_eq sound
  have someBytes := List.length_pos_iff.mpr someText
  refine ⟨middle, ?_, by omega, passes.sound, passes.safe⟩
  rw [isFault, ← passes.place]
  rfl

end Scanning

/-! ## First glyphs -/

section First

variable {source : Bytes} {before middle : Walker} {first : UInt8} {rest : Bytes}

private theorem lt_of_special (isSpecial : first ∈ Lexeme.special) : first < 0x80 := by
  have allAscii : ∀ byte ∈ Lexeme.special, byte < 0x80 := by
    decide +kernel
  exact allAscii first isSpecial

private theorem scanBehind_bracket (isBracket : first ∈ utf8 "()\x7b\x7d[],;") :
    ∃ kind,
      Lexeme.single? first = some kind ∧
      scanBehind source (.char (Char.ofNat first.toNat)) = emit source kind := by
  have spelled : utf8 "()\x7b\x7d[],;" = [0x28, 0x29, 0x7B, 0x7D, 0x5B, 0x5D, 0x2C, 0x3B] := rfl
  simp only [spelled, List.mem_cons, List.not_mem_nil, or_false] at isBracket
  rcases isBracket with rfl | rfl | rfl | rfl | rfl | rfl | rfl | rfl <;> exact ⟨_, rfl, rfl⟩

private theorem scanBehind_blank (isBlank : first ∈ utf8 " \t\r\n") :
    scanBehind source (.char (Char.ofNat first.toNat)) = pure () := by
  have spelled : utf8 " \t\r\n" = [0x20, 0x09, 0x0D, 0x0A] := rfl
  simp only [spelled, List.mem_cons, List.not_mem_nil, or_false] at isBlank
  rcases isBlank with rfl | rfl | rfl | rfl <;> rfl

/-- A glyph that no special byte starts is a digit, a letter or unexpected. -/
private theorem scanBehind_plain (isPlain : first ∉ Lexeme.special) :
    scanBehind source (Glyph.front first rest) =
      if Lexeme.isDigit first then
        scanNumber source
      else if Lexeme.isWordStart first then
        scanWord source
      else
        refuse (.unexpected (Glyph.front first rest)) := by
  have notSeen :
      (Glyph.front first rest).shown ∉ Lexeme.special.map (Char.ofNat ·.toNat) := by
    intro isSeen
    obtain ⟨mark, isSpecial, isShown⟩ := List.mem_map.mp isSeen
    have alike := (Alike.equal (lt_of_special isSpecial)).test_front first rest
    rw [← isShown, beq_self_eq_true, beq_iff_eq] at alike
    exact isPlain (alike ▸ isSpecial)
  rw [Alike.digit.test_front first rest, Alike.letter.test_front first rest]
  unfold scanBehind
  generalize (Glyph.front first rest).shown = value at notSeen
  split
  case h_18 => rfl
  all_goals exact absurd (by decide) notSeen

private theorem passes_first (isAscii : first < 0x80)
    (passes : Passes source before (Glyph.front first rest).bytes middle) :
    Passes source before [first] middle := by
  rwa [front_mark isAscii, Glyph.bytes, Glyph.utf8EncodeChar_ascii isAscii] at passes

end First

/-! ## Tokens -/

/-- A walker in front of a lexeme that starts with `first`. -/
structure Begins (source : Bytes) (before : Walker) (first : UInt8) (rest : Bytes) : Prop where
  sound : Sound source before
  start_eq : before.start = before.pos
  ahead : before.ahead source = first :: rest

section Lexemes

variable {source text : Bytes} {before middle : Walker} {lexeme : Lexeme} {first : UInt8}
  {rest : Bytes} (begins : Begins source before first rest)

include begins

private theorem start_of_passes (passes : Passes source before text middle) :
    middle.start = before.pos := by
  rw [passes.start, begins.start_eq]

/-- A slice of a lexeme is a part of its bytes. -/
private theorem comes_slice_within {bytes left kept right : Bytes} {start stop : Nat}
    (passes : Passes source before bytes middle) (split : bytes = left ++ kept ++ right)
    (isStart : start = before.pos + left.length) (isStop : stop = start + kept.length) :
    Comes source (slice source start stop) middle kept [] := by
  have lengths := congrArg List.length split
  rw [List.length_append, List.length_append] at lengths
  have reached := passes.pos_eq begins.sound
  have bound := passes.sound.pos_le
  have isKept : (source.drop start).take (stop - start) = kept := by
    rw [isStart, ← List.drop_drop, ← Walker.ahead, passes.ahead, split, List.append_assoc,
      List.append_assoc, List.drop_left, isStop, ← isStart, Nat.add_sub_cancel_left,
      List.take_left]
  rw [← isKept]
  exact comes_slice passes.sound (by omega) (by omega)

private theorem comes_slice_whole {bytes : Bytes} (passes : Passes source before bytes middle) :
    Comes source (slice source middle.start middle.pos) middle bytes [] := by
  have isStart := start_of_passes begins passes
  have isStop := passes.pos_eq begins.sound
  have split : bytes = [] ++ bytes ++ [] := by
    rw [List.nil_append, List.append_nil]
  exact comes_slice_within begins passes split isStart (by rw [isStop, isStart])

private theorem scans_emit {kind : Token.Kind} (passes : Passes source before lexeme.bytes middle)
    (isKind : lexeme.kind? = some kind) (isText : lexeme.text = lexeme.bytes) :
    Scans source before (.ok lexeme) (emit source kind middle) := by
  refine Scans.get (Scans.bind (comes_slice_whole begins passes) ?_)
  intro last passesLast
  exact scans_emitText (passes.still passesLast) isKind isText

/-! ## Strings -/

/-- The closing quote of a string, and its value. -/
private theorem scans_closeString {quoted behind : Bytes}
    (passes : Passes source before (Bytes.quote :: quoted) middle)
    (shape : middle.ahead source = Bytes.quote :: behind) :
    Scans source before (.ok ⟨.string, Bytes.quote :: quoted ++ [Bytes.quote]⟩)
      (closeString source middle) := by
  refine Scans.bind (comes_advance_mark (by decide) passes.sound shape) ?_
  intro closing passesClosing
  have passesWhole := passes.trans passesClosing
  have isStart := start_of_passes begins passesWhole
  have isStop := passesWhole.pos_eq begins.sound
  rw [List.length_append, List.length_cons, List.length_singleton] at isStop
  have safe : (Event.value closing.start closing.pos).Safe source := by
    show closing.start + 1 ≤ closing.pos - 1
    omega
  refine Scans.get (Scans.bind (comes_record passesWhole.sound safe) ?_)
  intro recording passesRecording
  have passesStill := passesWhole.still passesRecording
  have split : Bytes.quote :: quoted ++ [Bytes.quote] = [Bytes.quote] ++ quoted ++ [Bytes.quote] :=
    rfl
  refine Scans.bind (comes_slice_within begins passesStill split ?_ ?_) ?_
  · rw [isStart, List.length_singleton]
  · omega
  intro last passesLast
  refine scans_emitText (passesStill.still passesLast) rfl ?_
  simp [Lexeme.text]

private theorem scans_scanString (isQuote : first = Bytes.quote)
    (passes : Passes source before [first] middle) :
    Scans source before (cut first rest) (scanString source middle) := by
  subst isQuote
  have shape : middle.ahead source = rest := passes.ahead_of_append begins.ahead
  have loops := comes_passOthers (show Bytes.quote < 0x80 by decide) passes.sound
  rw [shape] at loops
  refine Scans.bind loops ?_
  intro stopped passesQuoted
  have passesBoth := passes.trans passesQuoted
  refine Scans.bind (comes_atEnd passesQuoted.sound) ?_
  intro ending passesEnding
  have passesEnd := passesBoth.still passesEnding
  by_cases closed : Bytes.quote ∈ rest
  · obtain ⟨quoted, behind, rfl, noQuote⟩ := List.eq_append_cons_of_mem closed
    rw [Lexeme.takeWhile_ne_append noQuote] at passesQuoted passesEnd
    have shapeStopped := passesQuoted.ahead_of_append shape
    rw [shapeStopped, List.isEmpty_cons, if_neg Bool.false_ne_true]
    have cutOff := Lexeme.cut_string noQuote behind
    rw [List.append_assoc, List.singleton_append] at cutOff
    rw [cutOff]
    exact scans_closeString begins passesEnd (passesEnding.ahead_eq.trans shapeStopped)
  · have all : rest.takeWhile (· != Bytes.quote) = rest := by
      rw [List.takeWhile_eq_self_iff]
      intro byte member
      rw [bne_iff_ne]
      intro isQuote
      exact closed (isQuote ▸ member)
    rw [all] at passesQuoted passesEnd
    have shapeStopped : stopped.ahead source = [] := by
      apply passesQuoted.ahead_of_append
      rw [shape, List.append_nil]
    rw [shapeStopped, List.isEmpty_nil, if_pos rfl, Lexeme.cut_quote, Lexeme.cutString,
      if_neg closed]
    exact scans_refuse begins.sound passesEnd (List.cons_ne_nil _ _) rfl

/-! ## Comments -/

private theorem scans_scanComment {line : Bytes} (isSlash : first = 0x2F)
    (isRest : rest = 0x5F :: 0x5C :: line)
    (passes : Passes source before [0x2F, 0x5F, 0x5C] middle) :
    Scans source before (cut first rest) (scanComment source middle) := by
  subst isSlash isRest
  have shape : middle.ahead source = line := passes.ahead_of_append begins.ahead
  have loops := comes_passOthers (show Bytes.lineFeed < 0x80 by decide) passes.sound
  rw [shape] at loops
  refine Scans.bind loops ?_
  intro stopped passesLine
  have passesWhole := passes.trans passesLine
  have isStart := start_of_passes begins passesWhole
  have isStop := passesWhole.pos_eq begins.sound
  rw [List.length_append, List.length_cons, List.length_cons, List.length_singleton] at isStop
  have safe : (Event.remark stopped.start stopped.pos).Safe source := by
    refine ⟨by omega, ?_⟩
    rw [isStart, ← Walker.ahead, begins.ahead]
    rfl
  refine Scans.get (Scans.bind (comes_record passesWhole.sound safe) ?_)
  intro recording passesRecording
  have passesStill := passesWhole.still passesRecording
  have split := (List.append_nil ([0x2F, 0x5F, 0x5C] ++ line.takeWhile (· != Bytes.lineFeed))).symm
  refine Scans.bind (comes_slice_within begins passesStill split ?_ ?_) ?_
  · rw [isStart]
    rfl
  · omega
  intro last passesLast
  rw [Lexeme.cut_slash]
  exact scans_emitText (passesStill.still passesLast) rfl rfl

/-! ## Numbers and words -/

private theorem scans_scanNumber (isDigit : Lexeme.isDigit first = true)
    (passes : Passes source before [first] middle) :
    Scans source before (cut first rest) (scanNumber source middle) := by
  have shape : middle.ahead source = rest := passes.ahead_of_append begins.ahead
  have digits := comes_passDigits passes.sound
  rw [shape] at digits
  refine Scans.bind digits ?_
  intro stopped passesDigits
  have isFraction : stopped.ahead source = rest.dropWhile Lexeme.isDigit := by
    apply passesDigits.ahead_of_append
    rw [shape, List.takeWhile_append_dropWhile]
  have decimals := comes_scanFraction passesDigits.sound
  rw [isFraction] at decimals
  refine Scans.bind decimals ?_
  intro last passesDecimals
  have passesNumber := (passes.trans passesDigits).trans passesDecimals
  have isNumber :
      cut first rest =
        .ok ⟨.number, [first] ++ rest.takeWhile Lexeme.isDigit ++
          Lexeme.fraction (rest.dropWhile Lexeme.isDigit)⟩ := by
    rw [Lexeme.cut_digit isDigit, Lexeme.cutNumber, List.takeWhile_cons_of_pos isDigit,
      List.dropWhile_cons_of_pos isDigit, List.singleton_append]
  rw [isNumber]
  exact scans_emit begins passesNumber rfl rfl

private theorem scans_scanWord (wordStart : Lexeme.isWordStart first = true)
    (passes : Passes source before [first] middle) :
    Scans source before (cut first rest) (scanWord source middle) := by
  have shape : middle.ahead source = rest := passes.ahead_of_append begins.ahead
  have alikeWord : Alike Lexeme.isWordByte fun value => isLetter value || value.isDigit :=
    Alike.letter.or Alike.digit
  have loops := comes_passWhile alikeWord (fun _ => comes_sees alikeWord rfl) passes.sound
    (length_ahead_lt middle)
  rw [shape] at loops
  refine Scans.bind loops ?_
  intro stopped passesOthers
  have passesWord := passes.trans passesOthers
  rw [Lexeme.cut_wordStart wordStart]
  refine Scans.get (Scans.bind (comes_slice_whole begins passesWord) ?_)
  intro last passesLast
  exact scans_emitText (passesWord.still passesLast) rfl rfl

/-! ## All lexemes -/

private theorem scans_single {kind : Token.Kind} (single : Lexeme.single? first = some kind)
    (unpaired : rest.head?.bind (Lexeme.pair? first) = none)
    (passes : Passes source before [first] middle) :
    Scans source before (cut first rest) (emit source kind middle) := by
  rw [Lexeme.cut_single single unpaired]
  exact scans_emit begins passes rfl rfl

private theorem scans_scanPair (second : UInt8) {kind : Token.Kind} {alone : Part Unit}
    (isAscii : second < 0x80) (paired : Lexeme.pair? first second = some kind)
    (passes : Passes source before [first] middle)
    (ifAlone : ∀ after, rest.head? ≠ some second → Passes source before [first] after →
      Scans source before (cut first rest) (alone after)) :
    Scans source before (cut first rest)
      (scanPair source (Char.ofNat second.toNat) kind alone middle) := by
  have shape : middle.ahead source = rest := passes.ahead_of_append begins.ahead
  refine Scans.accept second isAscii passes.sound ?_ ?_
  · intro behind after isFollowed passesSecond
    rw [← shape, isFollowed, Lexeme.cut_pair paired]
    exact scans_emit begins (passes.trans passesSecond) rfl rfl
  · intro after notFollowed passesStill
    rw [shape] at notFollowed
    exact ifAlone after notFollowed (passes.still passesStill)

private theorem scans_equals (isEquals : first = 0x3D)
    (passes : Passes source before [first] middle) :
    Scans source before (cut first rest) (scanBehind source (.char '=') middle) := by
  subst isEquals
  refine scans_scanPair begins 0x3D (by decide) rfl passes ?_
  intro single notEquals passesSingle
  refine scans_scanPair begins 0x3E (by decide) rfl passesSingle ?_
  intro alone notGreater passesAlone
  refine scans_single begins rfl ?_ passesAlone
  rw [Option.bind_eq_none_iff]
  intro second isSecond
  rw [isSecond, ne_eq, Option.some_inj] at notEquals notGreater
  rw [Lexeme.pair?, List.lookup_eq_none_iff]
  simp [notEquals, notGreater]

private theorem scans_scanSlash (isSlash : first = 0x2F)
    (passes : Passes source before [first] middle) :
    Scans source before (cut first rest) (scanSlash source middle) := by
  subst isSlash
  have shape : middle.ahead source = rest := passes.ahead_of_append begins.ahead
  refine Scans.accept 0x5F (by decide) passes.sound ?_ ?_
  · intro others underscored isFollowed passesUnderscore
    have passesBoth := passes.trans passesUnderscore
    have isRest : rest = 0x5F :: others := shape.symm.trans isFollowed
    have shapeOthers : underscored.ahead source = others :=
      passesUnderscore.ahead_of_append isFollowed
    refine Scans.accept 0x5C (by decide) passesBoth.sound ?_ ?_
    · intro line marked isLine passesBackslash
      have isComment : rest = 0x5F :: 0x5C :: line := by
        rw [isRest, ← shapeOthers, isLine]
      exact scans_scanComment begins rfl isComment (passesBoth.trans passesBackslash)
    · intro alone notFollowed passesAlone
      rw [shapeOthers] at notFollowed
      rw [isRest, Lexeme.cut_slashUnderscore notFollowed]
      exact scans_blank (passesBoth.still passesAlone) rfl
  · intro alone notFollowed passesAlone
    rw [shape] at notFollowed
    rw [Lexeme.cut_loneSlash notFollowed]
    exact scans_blank (passes.still passesAlone) rfl

private theorem scans_special (isSpecial : first ∈ Lexeme.special)
    (passes : Passes source before [first] middle) :
    Scans source before (cut first rest)
      (scanBehind source (.char (Char.ofNat first.toNat)) middle) := by
  have groups :
      Lexeme.special =
        utf8 "()\x7b\x7d[],;" ++ [0x3D, 0x3A, 0x2D, 0x2F, 0x22] ++ utf8 " \t\r\n" := by
    decide
  rw [groups, List.mem_append, List.mem_append] at isSpecial
  rcases isSpecial with (isBracket | isMark) | isBlank
  · obtain ⟨kind, single, same⟩ := scanBehind_bracket isBracket
    have noPairs : ∀ byte ∈ utf8 "()\x7b\x7d[],;", byte ∉ [0x3A, 0x3D, 0x2D] := by
      decide +kernel
    rw [same]
    exact scans_single begins single (Lexeme.pair?_eq_none (noPairs first isBracket) rest) passes
  · simp only [List.mem_cons, List.not_mem_nil, or_false] at isMark
    rcases isMark with rfl | rfl | rfl | rfl | rfl
    · exact scans_equals begins rfl passes
    · refine scans_scanPair begins 0x3A (by decide) rfl passes ?_
      intro alone notFollowed passesAlone
      rw [Lexeme.cut_colon notFollowed]
      exact scans_blank passesAlone rfl
    · refine scans_scanPair begins 0x3E (by decide) rfl passes ?_
      intro alone notFollowed passesAlone
      rw [Lexeme.cut_minus notFollowed]
      exact scans_blank passesAlone rfl
    · exact scans_scanSlash begins rfl passes
    · exact scans_scanString begins rfl passes
  · rw [scanBehind_blank isBlank, Lexeme.cut_blank isBlank]
    exact scans_blank passes rfl

private theorem scans_plain (isPlain : first ∉ Lexeme.special)
    (passes : Passes source before (Glyph.front first rest).bytes middle) :
    Scans source before (cut first rest)
      (scanBehind source (Glyph.front first rest) middle) := by
  rw [scanBehind_plain isPlain]
  by_cases isDigit : Lexeme.isDigit first = true
  · rw [if_pos isDigit]
    exact scans_scanNumber begins isDigit (passes_first (Lexeme.lt_of_isDigit isDigit) passes)
  by_cases isStart : Lexeme.isWordStart first = true
  · rw [if_neg isDigit, if_pos isStart]
    exact scans_scanWord begins isStart (passes_first (Lexeme.lt_of_isWordStart isStart) passes)
  · rw [if_neg isDigit, if_neg isStart, Lexeme.cut_of_plain isPlain, if_neg isDigit,
      if_neg isStart]
    have someBytes : (Glyph.front first rest).bytes ≠ [] := by
      obtain ⟨tail, behind, -, bytes⟩ := Glyph.front_bytes first rest
      rw [bytes]
      exact List.cons_ne_nil first tail
    exact scans_refuse begins.sound passes someBytes rfl

/-- A walker in front of some text takes the lexeme that is cut off there. -/
theorem scans_scanLexeme : Scans source before (cut first rest) (scanLexeme source before) := by
  refine Scans.bind (comes_advance begins.sound begins.ahead) ?_
  intro middle passes
  by_cases isSpecial : first ∈ Lexeme.special
  · have isAscii := lt_of_special isSpecial
    rw [front_mark isAscii]
    exact scans_special begins isSpecial (passes_first isAscii passes)
  · exact scans_plain begins isSpecial passes

end Lexemes

/-! ## Whole walks -/

def Walker.starting (walker : Walker) : Walker :=
  { walker with start := walker.pos, events := .stand walker.pos walker.pos :: walker.events }

/-- A walk makes the tokens of the lexemes behind those it has made, and comes to the end of the
source or halts with the fault of the obstacle. -/
def Finishes (source : Bytes) (before : Walker) (lexemes : List Lexeme) :
    Option Obstacle → EStateM.Result Halt Walker (List Token) → Prop
  | none, result =>
      ∃ after,
        result =
          .ok (before.tokens.reverse ++ Lexeme.tokens before.place lexemes ++
            [⟨.eof, [], Lexeme.advance before.place lexemes⟩]) after ∧
        (before.Safe source → after.Safe source)
  | some obstacle, result =>
      ∃ after,
        result =
          .error (.fault (obstacle.fault (Lexeme.advance before.place lexemes))) after ∧
        (before.Safe source → after.Safe source)

section Walks

variable {source text : Bytes} {before after : Walker} {first : UInt8} {rest : Bytes}
  {lexeme : Lexeme} {lexemes : List Lexeme} {ending : Option Obstacle}

private theorem begins_starting (sound : Sound source before)
    (shape : before.ahead source = first :: rest) :
    Begins source before.starting first rest :=
  ⟨⟨Nat.le_refl _, sound.pos_le⟩, rfl, shape⟩

private theorem safe_starting (sound : Sound source before) (safe : before.Safe source) :
    before.starting.Safe source :=
  List.forall_mem_cons.mpr ⟨⟨Nat.le_refl _, sound.pos_le⟩, safe⟩

theorem scanLexemes_cons (shape : before.ahead source = first :: rest) (fuel : Nat) :
    scanLexemes source (fuel + 1) before =
      (scanLexeme source >>= fun _ => scanLexemes source fuel) before.starting := by
  rw [scanLexemes, bind_of_ok (atEnd_apply before), shape]
  rfl

private theorem finishes_nil (shape : before.ahead source = []) (fuel : Nat) :
    Finishes source before [] none (scanLexemes source (fuel + 1) before) := by
  refine ⟨{ before with tokens := ⟨.eof, [], before.place⟩ :: before.tokens }, ?_, id⟩
  rw [scanLexemes, bind_of_ok (atEnd_apply before), shape, Lexeme.tokens, List.append_nil,
    ← List.reverse_cons]
  rfl

/-- A lexeme that is taken goes in front of those that the walk finishes with. -/
private theorem Takes.finishes (takes : Takes source before.starting lexeme after)
    (sound : Sound source before) {result : EStateM.Result Halt Walker (List Token)}
    (finishes : Finishes source after lexemes ending result) :
    Finishes source before (lexeme :: lexemes) ending result := by
  have place : after.place = before.place.advance lexeme.bytes := takes.place
  have made :
      after.tokens.reverse =
        before.tokens.reverse ++ (lexeme.token? (before.place.advance lexeme.bytes)).toList := by
    rw [takes.tokens, place, List.reverse_append]
    cases lexeme.token? (before.place.advance lexeme.bytes) <;> rfl
  cases ending with
  | none =>
      obtain ⟨last, ends, safe⟩ := finishes
      refine ⟨last, ?_, fun isSafe => safe (takes.safe (safe_starting sound isSafe))⟩
      rw [ends, made, place, Lexeme.tokens, List.append_assoc before.tokens.reverse]
      rfl
  | some obstacle =>
      obtain ⟨last, ends, safe⟩ := finishes
      refine ⟨last, ?_, fun isSafe => safe (takes.safe (safe_starting sound isSafe))⟩
      rw [ends, place]
      rfl

/-- A walk follows the cutting of the text that it stands in front of. -/
theorem finishes_of_cuts (cuts : Cuts text lexemes ending) (sound : Sound source before)
    (shape : before.ahead source = text) {fuel : Nat} (enough : text.length ≤ fuel) :
    Finishes source before lexemes ending (scanLexemes source (fuel + 1) before) := by
  induction cuts generalizing before fuel with
  | done =>
      exact finishes_nil shape fuel
  | stuck blocked =>
      have scans := scans_scanLexeme (begins_starting sound shape)
      rw [blocked] at scans
      obtain ⟨after, halts, -, -, safe⟩ := scans
      refine ⟨after, ?_, fun isSafe => safe (safe_starting sound isSafe)⟩
      rw [scanLexemes_cons shape, bind_of_error halts]
      rfl
  | @lexeme first tail behind lexeme lexemes ending cutOff bytes _ inductionHypothesis =>
      rw [List.cons_append] at shape
      have scans := scans_scanLexeme (begins_starting sound shape)
      rw [cutOff] at scans
      obtain ⟨after, ends, takes⟩ := scans
      have shapeAfter : after.ahead source = behind := by
        have split := takes.ahead
        rw [bytes] at split
        exact List.append_cancel_left (split.symm.trans shape)
      rw [List.length_append, List.length_cons] at enough
      obtain ⟨spare, rfl⟩ : ∃ spare, fuel = spare + 1 := ⟨fuel - 1, by omega⟩
      rw [scanLexemes_cons shape, bind_of_ok ends]
      exact takes.finishes sound (inductionHypothesis takes.sound shapeAfter (by omega))

private theorem Finishes.safe {result : EStateM.Result Halt Walker (List Token)}
    (finishes : Finishes source before lexemes ending result) (isSafe : before.Safe source) :
    (reached result).Safe source := by
  cases ending with
  | none =>
      obtain ⟨after, rfl, safe⟩ := finishes
      exact safe isSafe
  | some obstacle =>
      obtain ⟨after, rfl, safe⟩ := finishes
      exact safe isSafe

private theorem Scans.lt_pos {outcome : Except Obstacle Lexeme}
    {result : EStateM.Result Halt Walker Unit}
    (isOutcome : cut first rest = outcome) (scans : Scans source before outcome result) :
    before.pos < (reached result).pos ∧ (reached result).pos ≤ source.length := by
  cases outcome with
  | ok lexeme =>
      obtain ⟨after, rfl, takes⟩ := scans
      obtain ⟨tail, behind, bytes, -⟩ := Lexeme.cut_bytes isOutcome
      have lengths := congrArg List.length takes.ahead
      rw [Walker.ahead, Walker.ahead, List.length_append, List.length_drop, List.length_drop,
        bytes, List.length_cons] at lengths
      have bound := takes.sound.pos_le
      refine ⟨?_, bound⟩
      show before.pos < after.pos
      omega
  | error obstacle =>
      obtain ⟨after, rfl, further, sound, -⟩ := scans
      exact ⟨further, sound.pos_le⟩

end Walks

/-- The walk through a source comes to the tokens or the fault of the source, and all it does
stays within the source.  Each lexeme moves a walker ahead, also one that ends in a fault. -/
theorem walk_within (source : Bytes) :
    tokens? (walk source) = some (scan source) ∧
    (∀ event ∈ (reached (walk source)).events, event.Safe source) ∧
    ∀ walker : Walker, walker.start = walker.pos → walker.pos < source.length →
      walker.pos < (reached (scanLexeme source walker)).pos ∧
      (reached (scanLexeme source walker)).pos ≤ source.length := by
  have cuts := Lexeme.cuts_cutAll source
  have sound : Sound source { events := [.stand 0 0] } := ⟨Nat.le_refl 0, Nat.zero_le _⟩
  have safe : Walker.Safe source { events := [.stand 0 0] } := by
    intro event isFirst
    rw [List.mem_singleton.mp isFirst]
    exact ⟨Nat.le_refl 0, Nat.zero_le _⟩
  have finishes : Finishes source _ _ _ (walk source) :=
    finishes_of_cuts cuts sound rfl (Nat.le_refl source.length)
  refine ⟨?_, finishes.safe safe, ?_⟩
  · generalize (Lexeme.cutAll source).1 = lexemes at cuts finishes
    generalize (Lexeme.cutAll source).2 = ending at cuts finishes
    cases ending with
    | none =>
        obtain ⟨after, ends, -⟩ := finishes
        rw [ends, cuts.scan_eq_ok]
        rfl
    | some obstacle =>
        obtain ⟨after, ends, -⟩ := finishes
        rw [ends, cuts.scan_eq_error]
        rfl
  · intro walker isStart notEnd
    have someAhead : walker.ahead source ≠ [] := by
      rw [Walker.ahead, ne_eq, List.drop_eq_nil_iff, Nat.not_le]
      exact notEnd
    obtain ⟨first, rest, shape⟩ := List.exists_cons_of_ne_nil someAhead
    have begins : Begins source walker first rest :=
      ⟨⟨Nat.le_of_eq isStart, Nat.le_of_lt notEnd⟩, isStart, shape⟩
    exact (scans_scanLexeme begins).lt_pos rfl

/-- A string that the source ends in, behind the first byte of a character. -/
def brokenString : Bytes :=
  [Bytes.quote, 0xC3]

theorem walk_within_brokenString :
    scan brokenString = .error (.unterminated 1) ∧
    tokens? (walk brokenString) = some (.error (.unterminated 1)) ∧
    0 < (reached (scanLexeme brokenString {})).pos := by
  obtain ⟨agrees, -, further⟩ := walk_within brokenString
  have unterminated : scan brokenString = .error (.unterminated 1) := rfl
  rw [unterminated] at agrees
  exact ⟨unterminated, agrees, (further {} rfl (by decide)).1⟩

end Walk

end TriforceScript
