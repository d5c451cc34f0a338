import TriforceScript.Proofs.Compilation.Parsed
import TriforceScript.Proofs.Reader.Viability
import TriforceScript.Proofs.Scan.Positions
import TriforceScript.Source

/-!
# Places of faults

A source text that is no program is so from some place on: where no lexeme stands, or where the
first token ends that no program goes on with.  The line of the fault counts the line feeds in
front of this place.
-/

namespace TriforceScript

open Lexical

/-! ## Tokens that cannot be accepted -/

/-- Some program goes on behind `tokens`, but none of them with `token`. -/
def Refuses (tokens : List Token) (token : Token) : Prop :=
  (∃ more, (∀ other ∈ more, other.kind ≠ .eof) ∧ Readable (tokens ++ more)) ∧
    ∀ more, ¬ Readable (tokens ++ token :: more)

section Refusals

open Reader (State)

variable {tokens : List Token} (proper : ∀ token ∈ tokens, token.kind ≠ .eof)

include proper

private theorem refuses_of_accept? {token : Token} (properToken : token.kind ≠ .eof)
    {reached : State}
    (run : ({} : State).run tokens = some reached) (refused : reached.accept? token = none) :
    Refuses tokens token := by
  refine ⟨exists_readable_append proper run, ?_⟩
  have properBoth : ∀ other ∈ tokens ++ [token], other.kind ≠ .eof := by
    intro other member
    rcases List.mem_append.mp member with inTokens | isToken
    · exact proper other inTokens
    · rw [List.mem_singleton.mp isToken]
      exact properToken
  have stuck : ({} : State).run (tokens ++ [token]) = none := by
    rw [State.run_append_of_run run, State.run_cons, refused]
    rfl
  intro more
  rw [List.append_cons]
  exact not_readable_append properBoth stuck more

private theorem refuses_end {endToken : Token} (isEnd : endToken.kind = .eof) {reached : State}
    (run : ({} : State).run tokens = some reached) (underWay : reached.program? = none) :
    Refuses tokens endToken := by
  refine ⟨exists_readable_append proper run, ?_⟩
  intro more
  rw [readable_append_iff proper, List.takeWhile_cons_of_neg (by simp [isEnd]), List.append_nil,
    State.outcome?, run, Option.bind_some, underWay]
  rintro ⟨program, ⟨⟩⟩

/-- A fault names the first token that cannot be accepted, or the one for the end. -/
private theorem exists_refuses {endToken : Token} (isEnd : endToken.kind = .eof)
    {fault : ParseFault} (failed : (State.read endToken {} tokens).result = .error fault) :
    (∃ before behind,
      tokens = before ++ fault.found :: behind ∧ Refuses before fault.found) ∨
    fault.found = endToken ∧ Refuses tokens endToken := by
  cases run : ({} : State).run tokens with
  | none =>
      obtain ⟨before, token, behind, reached, rfl, runBefore, refused⟩ := State.exists_blocked run
      rw [List.forall_mem_append, List.forall_mem_cons] at proper
      rw [State.read_of_blocked endToken behind runBefore refused] at failed
      cases failed
      exact .inl ⟨before, behind, rfl, refuses_of_accept? proper.1 proper.2.1 runBefore refused⟩
  | some reached =>
      rw [State.read_of_run endToken run, State.finish] at failed
      cases ended : reached.program? with
      | some program =>
          rw [ended] at failed
          cases failed
      | none =>
          rw [ended] at failed
          cases failed
          exact .inr ⟨rfl, refuses_end proper isEnd run ended⟩

end Refusals

/-! ## Places -/

/-- `fault.Lies source before` means that `before` is the part of `source` up to the place where
its scan came to a halt, or up to the end of the first token that cannot be accepted. -/
inductive Fault.Lies (source : Bytes) : Fault → Bytes → Prop
  | glyph {pieces : List Piece} {rest : Bytes} {glyph : Glyph} {line : Int} :
      joined pieces ++ rest = source → LongestCut rest pieces → Stuck rest →
      rest.head? ≠ some Bytes.quote → rest.glyphs.head? = some glyph →
      Lies source (.scan (.unexpected glyph line)) (joined pieces)
  /-- A string without an end takes all of the text with it. -/
  | string {pieces : List Piece} {rest : Bytes} {line : Int} :
      joined pieces ++ Bytes.quote :: rest = source → LongestCut (Bytes.quote :: rest) pieces →
      Bytes.quote ∉ rest →
      Lies source (.scan (.unterminated line)) source
  | token {earlier later : List Piece} {piece : Piece} {fault : ParseFault} :
      joined (earlier ++ piece :: later) = source →
      LongestCut [] (earlier ++ piece :: later) →
      piece.content = some fault.found.content →
      fault.found.kind ≠ .eof →
      Refuses (placed [] earlier) fault.found →
      Lies source (.parse fault) (joined earlier ++ piece.bytes)
  | ending {pieces : List Piece} {fault : ParseFault} :
      joined pieces = source → LongestCut [] pieces → fault.found.kind = .eof →
      Refuses (placed [] pieces) fault.found →
      Lies source (.parse fault) source

namespace Fault.Lies

variable {source before : Bytes} {fault : Fault}

private theorem isPrefix (lies : fault.Lies source before) : before <+: source := by
  cases lies with
  | glyph whole _ _ _ _ => exact ⟨_, whole⟩
  | string _ _ _ => exact List.prefix_rfl
  | @token earlier later piece _ whole _ _ _ _ =>
      refine ⟨joined later, ?_⟩
      rw [← whole]
      simp [joined]
  | ending _ _ _ _ => exact List.prefix_rfl

/-- What more text could mend lies at the end. -/
private theorem eq_of_incomplete (lies : fault.Lies source before)
    (incomplete : fault.incomplete = true) :
    before = source := by
  cases lies with
  | glyph _ _ _ _ _ => cases incomplete
  | string _ _ _ => rfl
  | token _ _ _ proper _ =>
      have isEnd := beq_iff_eq.mp incomplete
      exact (proper isEnd).elim
  | ending _ _ _ _ => rfl

end Fault.Lies

/-! ## Faults of scanning -/

namespace Lexeme

theorem lineCount_joined_cons (lexeme : Lexeme) (rest : List Lexeme) :
    Bytes.lineCount (joined ((lexeme :: rest).map piece)) =
      lexeme.bytes.lineCount + Bytes.lineCount (joined (rest.map piece)) :=
  List.count_append

private theorem line_advance_joined (position : Position) (lexemes : List Lexeme) :
    (advance position lexemes).line =
      position.line + Bytes.lineCount (joined (lexemes.map piece)) := by
  induction lexemes generalizing position with
  | nil =>
      exact (Int.add_zero position.line).symm
  | cons lexeme rest inductionHypothesis =>
      have reached := inductionHypothesis (position.advance lexeme.bytes)
      rw [Position.line_advance] at reached
      rw [lineCount_joined_cons]
      show (advance (position.advance lexeme.bytes) rest).line = _
      push_cast
      omega

/-- A glyph that starts no lexeme is no line feed. -/
private theorem lineCount_front_of_cut {first : UInt8} {rest : Bytes} {obstacle : Obstacle}
    (blocked : cut first rest = .error obstacle) :
    (Glyph.front first rest).bytes.lineCount = 0 := by
  obtain ⟨tail, behind, rfl, bytes⟩ := Glyph.front_bytes first rest
  have counted := Glyph.count_lineFeed_front first (tail ++ behind)
  rw [Bytes.lineCount, counted, if_neg]
  intro isLineFeed
  have spelled : Glyph.bytes (.char '\n') = [Bytes.lineFeed] := rfl
  rw [isLineFeed, spelled] at bytes
  obtain ⟨rfl, -⟩ := List.cons.inj bytes
  rw [cut_lineFeed] at blocked
  cases blocked

end Lexeme

private theorem exists_lies_of_scan {source : Bytes} {fault : ScanFault}
    (failed : scan source = .error fault) :
    ∃ before, (Fault.scan fault).Lies source before ∧ fault.line = 1 + before.lineCount := by
  obtain ⟨lexemes, obstacle, cuts, rfl⟩ := Lexeme.exists_cuts_of_scan_eq_error failed
  obtain ⟨rest, whole, longest, ends⟩ := cuts.exists_longestCut
  have reached := Lexeme.line_advance_joined .start lexemes
  cases ends with
  | @stuck first more _ blocked =>
      rcases Lexeme.cut_eq_error blocked with ⟨rfl, unclosed, rfl⟩ | rfl
      · refine ⟨source, .string whole longest unclosed, ?_⟩
        have counted :
            source.lineCount =
              Bytes.lineCount (joined (lexemes.map Lexeme.piece)) +
                Bytes.lineCount (Bytes.quote :: more) := by
          rw [← whole]
          exact List.count_append
        show (Position.advance _ _).line = _
        rw [Position.line_advance, reached, counted]
        push_cast
        exact Int.add_assoc _ _ _
      · have noQuote : first ≠ Bytes.quote := by
          rintro rfl
          rw [Lexeme.cut_quote, Lexeme.cutString] at blocked
          split at blocked <;> cases blocked
        refine ⟨joined (lexemes.map Lexeme.piece),
          .glyph whole longest (Lexeme.stuck_iff.mpr ⟨_, blocked⟩) (by simpa using noQuote) rfl, ?_⟩
        show (Position.advance _ _).line = _
        rw [Position.line_advance, reached, Lexeme.lineCount_front_of_cut blocked]
        exact Int.add_zero _

/-! ## Faults of reading -/

/-- A token is made by the piece that ends where the token is placed. -/
private theorem Lexical.exists_piece_of_placed {before : Bytes} {pieces : List Piece}
    {first : List Token} {token : Token} {later : List Token}
    (arePlaced : placed before pieces = first ++ token :: later) :
    ∃ earlier piece more,
      pieces = earlier ++ piece :: more ∧ placed before earlier = first ∧
      piece.content = some token.content ∧
      token.pos = .behind (before ++ (joined earlier ++ piece.bytes)) := by
  induction pieces generalizing before first with
  | nil =>
      rw [placed] at arePlaced
      exact (List.append_ne_nil_of_right_ne_nil first (List.cons_ne_nil token later)
        arePlaced.symm).elim
  | cons piece rest inductionHypothesis =>
      rw [placed] at arePlaced
      have sameText (earlier : List Piece) (bytes : Bytes) :
          before ++ piece.bytes ++ (joined earlier ++ bytes) =
            before ++ (joined (piece :: earlier) ++ bytes) := by
        simp [joined]
      cases made : piece.content with
      | none =>
          rw [made] at arePlaced
          obtain ⟨earlier, other, more, rfl, areFirst, content, place⟩ :=
            inductionHypothesis arePlaced
          refine ⟨piece :: earlier, other, more, rfl, ?_, content, ?_⟩
          · rw [placed, made, ← areFirst]
            rfl
          · rw [place, sameText]
      | some content =>
          rw [made] at arePlaced
          cases first with
          | nil =>
              cases arePlaced
              exact ⟨[], piece, rest, rfl, rfl, made, rfl⟩
          | cons other others =>
              obtain ⟨rfl, areOthers⟩ := List.cons.inj arePlaced
              obtain ⟨earlier, last, more, rfl, areFirst, content, place⟩ :=
                inductionHypothesis areOthers
              refine ⟨piece :: earlier, last, more, rfl, ?_, content, ?_⟩
              · rw [placed, made, ← areFirst]
                rfl
              · rw [place, sameText]

private theorem exists_lies_of_read {source : Bytes} {fault : ParseFault}
    (failed : (parse source).result = .error (.parse fault)) :
    (∃ before behind,
      scan source = .ok (before ++ fault.found :: behind) ∧ Refuses before fault.found) ∧
    ∃ upToEnd, (Fault.parse fault).Lies source upToEnd ∧ fault.line = 1 + upToEnd.lineCount := by
  cases scanned : scan source with
  | error other =>
      rw [parse, scanned] at failed
      cases failed
  | ok tokens =>
      obtain ⟨lexemes, cuts, rfl⟩ := Lexeme.exists_cuts_of_scan_eq_ok scanned
      obtain ⟨rest, whole, longest, ends⟩ := cuts.exists_longestCut
      cases ends
      rw [List.append_nil] at whole
      have arePlaced := cuts.tokens_behind []
      have proper := cuts.kind_ne_eof .start
      have isEndPlace : (Lexeme.endToken lexemes).pos = .behind source := cuts.advance_behind []
      have read :
          (Reader.State.read (Lexeme.endToken lexemes) {} (Lexeme.tokens .start lexemes)).result =
            .error fault := by
        rw [parse, scanned] at failed
        dsimp only at failed
        rw [readTokens_append_end proper rfl] at failed
        generalize (Reader.State.read _ _ _).result = result at failed
        cases result with
        | ok program => cases failed
        | error other =>
            cases failed
            rfl
      rcases exists_refuses proper rfl read with
        ⟨before, behind, shape, refuses⟩ | ⟨isEnd, refuses⟩
      · have properFound : fault.found.kind ≠ .eof := by
          apply proper
          rw [shape]
          exact List.mem_append_right _ List.mem_cons_self
        refine ⟨⟨before, behind ++ [Lexeme.endToken lexemes], by rw [shape]; simp, refuses⟩, ?_⟩
        obtain ⟨earlier, piece, later, split, rfl, content, place⟩ :=
          Lexical.exists_piece_of_placed (arePlaced.symm.trans shape)
        rw [split] at whole longest
        refine ⟨joined earlier ++ piece.bytes,
          .token whole longest content properFound refuses, ?_⟩
        rw [ParseFault.line, place]
        rfl
      · rw [← isEnd] at isEndPlace refuses
        refine ⟨⟨Lexeme.tokens .start lexemes, [], by rw [isEnd], refuses⟩, source, ?_, ?_⟩
        · have kindFound : fault.found.kind = .eof := by
            rw [isEnd]
            rfl
          exact .ending whole longest kindFound (arePlaced ▸ refuses)
        · rw [ParseFault.line, isEndPlace]
          rfl

/-! ## Lines of faults -/

private theorem parse_error_cases {source : Bytes} {fault : Fault}
    (failed : (parse source).result = .error fault) :
    (∃ inner, fault = .scan inner ∧ scan source = .error inner) ∨
      ∃ inner, fault = .parse inner := by
  unfold parse at failed
  cases scanned : scan source with
  | error inner =>
      rw [scanned] at failed
      cases failed
      exact .inl ⟨inner, rfl, rfl⟩
  | ok tokens =>
      rw [scanned] at failed
      dsimp only at failed
      cases read : (readTokens tokens).result with
      | ok program =>
          rw [read] at failed
          cases failed
      | error inner =>
          rw [read] at failed
          cases failed
          exact .inr ⟨inner, rfl⟩

/-- Every fault of a source text lies somewhere, and its line counts the line feeds up to there. -/
theorem exists_lies {source : Bytes} {fault : Fault}
    (failed : (parse source).result = .error fault) :
    ∃ before, fault.Lies source before ∧ fault.line = 1 + before.lineCount := by
  rcases parse_error_cases failed with ⟨inner, rfl, scanned⟩ | ⟨inner, rfl⟩
  · exact exists_lies_of_scan scanned
  · exact (exists_lies_of_read failed).2

/-- A message says which line it is about. -/
def TellsLine (message : Bytes) (line : Int) : Prop :=
  ∃ front back,
    message = front ++ utf8 " at line " ++ Bytes.ofInt line ++ back ∧
    ∀ byte ∈ back.head?, byte ∉ digits

private theorem ScanFault.tellsLine (fault : ScanFault) : TellsLine fault.message fault.line := by
  refine ⟨fault.wording, [], ?_, ?_⟩
  · rw [List.append_nil, fault.message_eq]
  · intro byte isHead
    cases isHead

private theorem ParseFault.tellsLine (fault : ParseFault) : TellsLine fault.message fault.line := by
  refine ⟨fault.expected.message,
    utf8 ", found " ++ fault.found.kind.name ++ utf8 " (" ++ fault.found.text ++ utf8 ")", ?_, ?_⟩
  · simp only [message, List.append_assoc]
  · intro byte isHead
    cases isHead
    decide

/-- The line of a fault is one of the source text, and the message tells it.  If a glyph is to
blame, the line counts the line feeds in front of the glyph.  If the tokens are no program, it is
the line of the first token that cannot be accepted.  If more text could mend the fault, it is the
last line. -/
theorem fault_lines {source : Bytes} {fault : Fault}
    (failed : (parse source).result = .error fault) :
    1 ≤ fault.line ∧ fault.line ≤ 1 + source.lineCount ∧
    TellsLine fault.message fault.line ∧
    (∀ glyph line, fault = .scan (.unexpected glyph line) →
      ∃ pieces rest,
        joined pieces ++ rest = source ∧ LongestCut rest pieces ∧ Stuck rest ∧
        rest.glyphs.head? = some glyph ∧
        fault.line = 1 + Bytes.lineCount (joined pieces)) ∧
    (∀ inner, fault = .parse inner →
      ∃ before behind,
        scan source = .ok (before ++ inner.found :: behind) ∧ Refuses before inner.found ∧
        fault.line = inner.found.pos.line) ∧
    (fault.incomplete = true → fault.line = 1 + source.lineCount) := by
  obtain ⟨before, lies, isLine⟩ := exists_lies failed
  have fits : before.lineCount ≤ source.lineCount := lies.isPrefix.sublist.count_le _
  refine ⟨by omega, by omega, ?_, ?_, ?_, ?_⟩
  · rcases parse_error_cases failed with ⟨inner, rfl, -⟩ | ⟨inner, rfl⟩
    · exact inner.tellsLine
    · exact inner.tellsLine
  · rintro glyph line rfl
    cases lies with
    | glyph whole longest stuck _ isHead => exact ⟨_, _, whole, longest, stuck, isHead, isLine⟩
  · rintro inner rfl
    obtain ⟨⟨earlier, behind, scanned, refuses⟩, -⟩ := exists_lies_of_read failed
    exact ⟨earlier, behind, scanned, refuses, rfl⟩
  · intro incomplete
    rw [isLine, lies.eq_of_incomplete incomplete]

/-- A string over two lines, and a parenthesis on the next one. -/
def strayParenthesis : Bytes :=
  utf8 "x -> \"a\nb\"\n) y"

theorem fault_lines_strayParenthesis :
    (parse strayParenthesis).result =
      .error (.parse ⟨.expression, ⟨.rightParen, utf8 ")", ⟨3, 2⟩⟩⟩) ∧
    TellsLine (utf8 "expression expected at line 3, found RPAREN ())") 3 ∧
    ∃ before behind,
      scan strayParenthesis = .ok (before ++ ⟨.rightParen, utf8 ")", ⟨3, 2⟩⟩ :: behind) ∧
      Refuses before ⟨.rightParen, utf8 ")", ⟨3, 2⟩⟩ := by
  have failed :
      (parse strayParenthesis).result =
        .error (.parse ⟨.expression, ⟨.rightParen, utf8 ")", ⟨3, 2⟩⟩⟩) := rfl
  obtain ⟨-, -, tells, -, read, -⟩ := fault_lines failed
  obtain ⟨before, behind, scanned, refuses, -⟩ := read _ rfl
  exact ⟨failed, tells, before, behind, scanned, refuses⟩

/-! ## Faults of files -/

private theorem compileText_error_cases {source : Bytes} {fault : Fault}
    (failed : compileText source = .error fault) :
    (parse source).result = .error fault ∨ fault.step = .emit := by
  unfold compileText at failed
  rcases compile_cases source with ⟨inner, parsed, compiled⟩ | ⟨tokens, program, -, compiled⟩
  · rw [compiled] at failed
    cases failed
    exact .inl parsed
  · rw [compiled] at failed
    cases written : JavaScript.file program with
    | ok code =>
        rw [written] at failed
        cases failed
    | error inner =>
        rw [written] at failed
        cases failed
        exact .inr rfl

namespace Source

/-- What stands in a file in front of its source text. -/
def header (content : Bytes) : Bytes :=
  if (utf8 "#!").isPrefixOf content then
    content.takeWhile (· != Bytes.lineFeed) ++
      (content.dropWhile (· != Bytes.lineFeed)).take 1
  else
    []

private theorem header_append_ofContent (content : Bytes) :
    header content ++ ofContent content = content := by
  unfold header ofContent
  split
  · rw [List.append_assoc, List.take_append_drop, List.takeWhile_append_dropWhile]
  · rfl

private theorem header_eq_nil {content : Bytes} (plain : ¬ utf8 "#!" <+: content) :
    header content = [] := by
  rw [header, if_neg]
  rwa [List.isPrefixOf_iff_prefix]

/-- In front of a source text that is not empty, the header is a line of its own. -/
private theorem exists_header {content : Bytes} (marked : utf8 "#!" <+: content)
    (nonempty : ofContent content ≠ []) :
    ∃ line, header content = line ++ [Bytes.lineFeed] ∧ Bytes.lineFeed ∉ line := by
  have isMarked := List.isPrefixOf_iff_prefix.mpr marked
  rw [ofContent, if_pos isMarked] at nonempty
  refine ⟨content.takeWhile (· != Bytes.lineFeed), ?_, ?_⟩
  · rw [header, if_pos isMarked]
    cases dropped : content.dropWhile (· != Bytes.lineFeed) with
    | nil =>
        rw [dropped] at nonempty
        exact (nonempty rfl).elim
    | cons byte rest =>
        have stops := List.head?_dropWhile_not (· != Bytes.lineFeed) content
        rw [dropped] at stops
        have isLineFeed : byte = Bytes.lineFeed := by
          simpa using stops
        rw [isLineFeed]
        rfl
  · intro member
    have passes := List.mem_takeWhile_imp member
    simp at passes

end Source

/-- The line of a fault in a file counts the line feeds of the source text alone.  So it is the
line of the file where the fault lies, unless the file starts with `#!`: then it is the line in
front of that one. -/
theorem file_fault_lines {files : FileTree} {name : Bytes} {report : Report}
    (failed : Source.compile (.ofFile files name) = .error report)
    (located : report.step? = some .scan ∨ report.step? = some .parse) :
    ∃ content fault header before behind,
      files.read name = .ok content ∧ report = .ofFault fault ∧
      content = header ++ (before ++ behind) ∧ fault.Lies (before ++ behind) before ∧
      (¬ utf8 "#!" <+: content →
        header = [] ∧ fault.line = 1 + Bytes.lineCount (header ++ before)) ∧
      (utf8 "#!" <+: content →
        (∃ line, header = line ++ [Bytes.lineFeed] ∧ Bytes.lineFeed ∉ line) ∧
        fault.line = Bytes.lineCount (header ++ before)) := by
  unfold Source.ofFile at failed
  cases read : files.read name with
  | error cause =>
      rw [read] at failed
      cases failed
      rcases located with impossible | impossible <;> cases impossible
  | ok content =>
      rw [read] at failed
      change (compileText (Source.ofContent content)).mapError Report.ofFault = _ at failed
      cases compiled : compileText (Source.ofContent content) with
      | ok code =>
          rw [compiled] at failed
          cases failed
      | error fault =>
          rw [compiled] at failed
          cases failed
          have parsed : (parse (Source.ofContent content)).result = .error fault := by
            rcases compileText_error_cases compiled with parsed | isEmit
            · exact parsed
            · have isStep : (Report.ofFault fault).step? = some .emit := congrArg some isEmit
              rw [isStep] at located
              rcases located with impossible | impossible <;> cases impossible
          obtain ⟨before, lies, isLine⟩ := exists_lies parsed
          obtain ⟨behind, whole⟩ := lies.isPrefix
          rw [← whole] at lies
          refine ⟨content, fault, Source.header content, before, behind, rfl, rfl, ?_, lies, ?_, ?_⟩
          · rw [whole, Source.header_append_ofContent]
          · intro plain
            rw [Source.header_eq_nil plain]
            exact ⟨rfl, isLine⟩
          · intro marked
            -- There is no fault in an empty source text, so the header has a line feed.
            have nonempty : Source.ofContent content ≠ [] := by
              intro empty
              rw [empty] at parsed
              cases parsed
            obtain ⟨line, isHeader, noLineFeed⟩ := Source.exists_header marked nonempty
            refine ⟨⟨line, isHeader, noLineFeed⟩, ?_⟩
            have oneLine : Bytes.lineCount (Source.header content) = 1 := by
              rw [isHeader, Bytes.lineCount, List.count_append,
                List.count_eq_zero.mpr noLineFeed, List.count_singleton_self]
            have counted :
                Bytes.lineCount (Source.header content ++ before) =
                  Bytes.lineCount (Source.header content) + before.lineCount :=
              List.count_append
            rw [isLine, counted, oneLine]
            push_cast
            rfl

/-- A file with a first line for the system and a glyph behind it that starts no lexeme. -/
def markedFile : FileTree :=
  ⟨[([utf8 "a.tri"], .file (utf8 "#!x\n@"))], []⟩

theorem file_fault_lines_markedFile :
    Source.compile (.ofFile markedFile (utf8 "a.tri")) =
      .error (.of ⟨some .scan, 1, some (utf8 "unexpected character '@' at line 1"), false⟩) ∧
    ∃ (fault : Fault) (header before behind : Bytes),
      utf8 "#!x\n@" = header ++ (before ++ behind) ∧ fault.Lies (before ++ behind) before ∧
      fault.line = 1 ∧ 1 + Bytes.lineCount (header ++ before) = 2 := by
  have failed :
      Source.compile (.ofFile markedFile (utf8 "a.tri")) =
        .error (.of ⟨some .scan, 1, some (utf8 "unexpected character '@' at line 1"), false⟩) := rfl
  refine ⟨failed, ?_⟩
  obtain ⟨content, fault, header, before, behind, read, isReport, whole, lies, -, isMarked⟩ :=
    file_fault_lines failed (.inl rfl)
  have isContent : markedFile.read (utf8 "a.tri") = .ok (utf8 "#!x\n@") := rfl
  obtain rfl : utf8 "#!x\n@" = content := Except.ok.inj (isContent.symm.trans read)
  have isFirst : 1 = fault.line := congrArg Diagnostic.line (Report.of.inj isReport)
  have counted := (isMarked (List.isPrefixOf_iff_prefix.mp rfl)).2
  exact ⟨fault, header, before, behind, whole, lies, isFirst.symm, by omega⟩

end TriforceScript
