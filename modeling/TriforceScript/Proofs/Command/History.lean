import TriforceScript.Command
import TriforceScript.Proofs.Files.Writing
import TriforceScript.Proofs.Session.Agreement

/-!
# Histories from one session to the next

A history is kept in a file with one line for every item.  An item is found again as it is if
it is one line; of any other, the next session finds the lines.
-/

namespace TriforceScript

private theorem Bytes.getLast?_trim_ne_return (text : Bytes) :
    text.trim.getLast? ≠ some carriageReturn := by
  intro isReturn
  obtain ⟨front, shape⟩ := List.getLast?_eq_some_iff.mp isReturn
  have apart : ∀ byte ∈ [carriageReturn].head?, Glyph.isTail byte = false := by
    intro byte isHead
    cases isHead
    decide
  have read : text.trim.glyphs = glyphs front ++ [.char '\r'] := by
    rw [shape, glyphs_append front apart]
    rfl
  obtain ⟨-, -, -, -, -, -, ends⟩ := trim_eq_iff.mp (rfl : text.trim = text.trim)
  have visible := ends (.char '\r') (by rw [read, List.getLast?_concat]; rfl)
  exact absurd visible (by decide)

/-! ## Histories and their files -/

namespace History

open Bytes (lineFeed carriageReturn)

/-- An item that is one line of UTF-8 within a window, without a carriage return that could be
taken for a part of the line end. -/
structure Lasts (window : Nat) (item : Bytes) : Prop where
  oneLine : lineFeed ∉ item
  noReturn : item.getLast? ≠ some carriageReturn
  isUtf8 : item.isUtf8 = true
  fits : item.length < window

/-- The lines in the file of a history. -/
def fileLines (items : History) : List Bytes :=
  items.flatMap fun item => (Bytes.splitLines (item ++ [lineFeed])).1

private theorem splitLines_save (items : History) :
    items.save.splitLines = (items.fileLines, []) := by
  induction items with
  | nil =>
      rfl
  | cons item rest inductionHypothesis =>
      have shape : save (item :: rest) = item ++ [lineFeed] ++ save rest := rfl
      rw [shape, Bytes.splitLines_append (Bytes.splitLines_concat item), inductionHypothesis]
      rfl

private theorem load_save (window : Nat) (items : History) :
    load window items.save =
      ofLines ((items.fileLines.takeWhile (·.length ≤ window)).map Bytes.chomp) := by
  have whole : items.save.splitLines.2 = [] := by
    rw [splitLines_save]
  rw [load, Bytes.takeWhile_ends_pieces whole, splitLines_save]

private theorem latest_of_le {items : History} (few : items.length ≤ limit) :
    latest items = items := by
  rw [latest, Nat.sub_eq_zero_of_le few, List.drop_zero]

private theorem length_latest_le (items : History) : (latest items).length ≤ limit := by
  rw [latest, List.length_drop]
  omega

private theorem length_load_le (window : Nat) (content : Bytes) :
    (load window content).length ≤ limit := by
  rw [load, ofLines]
  exact length_latest_le _

private theorem latest_subset (items : History) : latest items ⊆ items :=
  List.drop_subset _ items

private theorem fileLines_of_lines {items : History} (lines : ∀ item ∈ items, lineFeed ∉ item) :
    items.fileLines = items.map (· ++ [lineFeed]) := by
  induction items with
  | nil =>
      rfl
  | cons item rest inductionHypothesis =>
      obtain ⟨first, others⟩ := List.forall_mem_cons.mp lines
      rw [fileLines, List.flatMap_cons, Bytes.splitLines_line first [], List.map_cons,
        ← inductionHypothesis others]
      rfl

/-- What is loaded has no line feed, and is UTF-8 within the window. -/
theorem of_mem_load {window : Nat} {content item : Bytes} (member : item ∈ load window content) :
    lineFeed ∉ item ∧ item.isUtf8 = true ∧ item.length < window := by
  rw [load, ofLines] at member
  have inLines := latest_subset _ member
  have isUtf8 := List.mem_takeWhile_imp inLines
  obtain ⟨piece, inPieces, rfl⟩ := List.mem_map.mp (List.takeWhile_subset _ inLines)
  have ends := List.mem_takeWhile_imp inPieces
  obtain ⟨rest, rfl⟩ := Bytes.exists_firstPiece_of_mem (List.takeWhile_subset _ inPieces)
  obtain ⟨noLineFeed, fits⟩ := Bytes.firstPiece_fits window rest
  exact ⟨noLineFeed, isUtf8, fits ends⟩

/-- Lines of which none is left out are the items. -/
private theorem eq_of_ofLines_eq {lines : List Bytes} {items : History}
    (same : ofLines lines = items) (lengths : lines.length = items.length) : lines = items := by
  have isPrefix := List.takeWhile_prefix (l := lines) Bytes.isUtf8
  have isSuffix : items <:+ lines.takeWhile Bytes.isUtf8 := by
    rw [← same]
    exact List.drop_suffix _ _
  have least := isSuffix.length_le
  have most := isPrefix.length_le
  rw [isSuffix.eq_of_length (by omega), isPrefix.eq_of_length (by omega)]

section Saving

variable {window : Nat} {items : History}

theorem map_chomp_eq_iff :
    (items.map fun item => Bytes.chomp (item ++ [lineFeed])) = items ↔
      ∀ item ∈ items, item.getLast? ≠ some carriageReturn := by
  have pointwise :=
    List.map_inj_left (l := items) (f := fun item => Bytes.chomp (item ++ [lineFeed])) (g := id)
  rw [List.map_id] at pointwise
  simp only [pointwise, id, Bytes.chomp_concat_eq_iff]

/-- Of items that are lines within the window, all lines are taken. -/
private theorem load_save_of_lines (lines : ∀ item ∈ items, lineFeed ∉ item)
    (fit : ∀ item ∈ items, item.length < window) :
    load window items.save = ofLines (items.map fun item => Bytes.chomp (item ++ [lineFeed])) := by
  have all : ∀ line ∈ items.map (· ++ [lineFeed]), decide (line.length ≤ window) = true := by
    intro line member
    obtain ⟨item, inItems, rfl⟩ := List.mem_map.mp member
    rw [List.length_append, List.length_singleton]
    exact decide_eq_true (fit item inItems)
  rw [load_save, fileLines_of_lines lines, List.takeWhile_eq_self_iff.mpr all, List.map_map]
  rfl

/-- A history with no more items than are kept is found again just when every item lasts. -/
theorem load_save_eq_iff (few : items.length ≤ limit) :
    load window items.save = items ↔ ∀ item ∈ items, Lasts window item := by
  constructor
  · intro same item member
    have lines : ∀ item ∈ items, lineFeed ∉ item := by
      intro item member
      rw [← same] at member
      exact (of_mem_load member).1
    have fit : ∀ item ∈ items, item.length < window := by
      intro item member
      rw [← same] at member
      exact (of_mem_load member).2.2
    have isUtf8 : item.isUtf8 = true := by
      rw [← same] at member
      exact (of_mem_load member).2.1
    refine ⟨lines item member, ?_, isUtf8, fit item member⟩
    -- No line has been left out, so the lines are the items one by one.
    rw [load_save_of_lines lines fit] at same
    have chomped := eq_of_ofLines_eq same (List.length_map _)
    exact map_chomp_eq_iff.mp chomped item member
  · intro lasting
    have chomped := map_chomp_eq_iff.mpr fun item member => (lasting item member).noReturn
    rw [load_save_of_lines (fun item member => (lasting item member).oneLine)
      (fun item member => (lasting item member).fits), chomped, ofLines,
      List.takeWhile_eq_self_iff.mpr fun item member => (lasting item member).isUtf8,
      latest_of_le few]

end Saving

end History

/-! ## What sessions remember -/

namespace Session.Prompted

private theorem history_runFrom (colours : Bool) (ending : Ending) (pending : Bytes)
    (history : History) (lines : List Bytes) :
    (runFrom colours ending pending history lines).history =
      (turnsFrom pending lines).foldl (fun items turn => remember items turn.reply) history := by
  induction lines generalizing pending history with
  | nil =>
      cases ending <;> rfl
  | cons line rest inductionHypothesis =>
      simp only [runFrom, turnsFrom, List.foldl_cons, inductionHypothesis]

private theorem length_remember_le {history : History} (few : history.length ≤ History.limit)
    (reply : Reply) : (remember history reply).length ≤ History.limit := by
  unfold remember
  split
  · exact few
  · split
    · exact few
    · rw [History.append]
      split
      · exact few
      · exact History.length_latest_le _

private theorem mem_of_mem_remember {history : History} {reply : Reply} {item : Bytes}
    (member : item ∈ remember history reply) :
    item ∈ history ∨ ∃ chunk code, reply = .code chunk code ∧ item = chunk.trim := by
  cases reply with
  | silent | fault _ _ | unreadable _ =>
      exact .inl member
  | code chunk code =>
      simp only [remember, Reply.accepted?] at member
      split at member
      · exact .inl member
      · rw [History.append] at member
        split at member
        · exact .inl member
        · rcases List.mem_append.mp (History.latest_subset _ member) with isOld | isNew
          · exact .inl isOld
          · exact .inr ⟨chunk, code, rfl, List.mem_singleton.mp isNew⟩

private theorem length_foldl_remember_le {history : History} (few : history.length ≤ History.limit)
    (turns : List Turn) :
    (turns.foldl (fun items turn => remember items turn.reply) history).length ≤ History.limit := by
  induction turns generalizing history with
  | nil =>
      exact few
  | cons turn rest inductionHypothesis =>
      exact inductionHypothesis (length_remember_le few turn.reply)

/-- Every item is an old one, or a chunk that has been compiled, without the blanks around it. -/
private theorem mem_of_mem_foldl_remember {history : History} {turns : List Turn} {item : Bytes}
    (member : item ∈ turns.foldl (fun items turn => remember items turn.reply) history) :
    item ∈ history ∨
      ∃ turn ∈ turns, ∃ chunk code, turn.reply = .code chunk code ∧ item = chunk.trim := by
  induction turns generalizing history with
  | nil =>
      exact .inl member
  | cons turn rest inductionHypothesis =>
      rcases inductionHypothesis member with remembered | ⟨later, inRest, isCode⟩
      · rcases mem_of_mem_remember remembered with isOld | isCode
        · exact .inl isOld
        · exact .inr ⟨turn, List.mem_cons_self, isCode⟩
      · exact .inr ⟨later, List.mem_cons_of_mem turn inRest, isCode⟩

/-- What is loaded of the items that a session has held at its end, whatever the window and
whatever the session itself has loaded. -/
theorem load_save_runOn (window : Nat) (colours : Bool) (content input : Bytes) (ending : Ending) :
    let found := History.load window content
    let lines := (input.pieces window).map Bytes.Piece.bytes
    let held := (runOn colours found window input ending).history
    let next := History.load window held.save
    next = .ofLines ((held.fileLines.takeWhile (·.length ≤ window)).map Bytes.chomp) ∧
    (next = held ↔ ∀ item ∈ held, History.Lasts window item) ∧
    ∀ item ∈ held,
      (item ∈ found ∧ (History.Lasts window item ↔ item.getLast? ≠ some Bytes.carriageReturn)) ∨
      ∃ turn ∈ turns lines, ∃ chunk code,
        turn.reply = .code chunk code ∧ item = chunk.trim ∧
        (History.Lasts window item ↔
          Bytes.lineFeed ∉ item ∧ item.isUtf8 = true ∧ item.length < window) := by
  intro found lines held next
  have isHeld :
      held = (turns lines).foldl (fun items turn => remember items turn.reply) found :=
    history_runFrom colours ending [] found lines
  have few : held.length ≤ History.limit := by
    rw [isHeld]
    exact length_foldl_remember_le (History.length_load_le _ _) _
  refine ⟨History.load_save window held, History.load_save_eq_iff few, ?_⟩
  intro item member
  rw [isHeld] at member
  rcases mem_of_mem_foldl_remember member with
    isFound | ⟨turn, inTurns, chunk, code, isCode, rfl⟩
  · obtain ⟨oneLine, isUtf8, fits⟩ := History.of_mem_load isFound
    exact .inl ⟨isFound, fun lasts => lasts.noReturn,
      fun noReturn => ⟨oneLine, noReturn, isUtf8, fits⟩⟩
  · have noReturn := chunk.getLast?_trim_ne_return
    exact .inr ⟨turn, inTurns, chunk, code, isCode, rfl,
      fun lasts => ⟨lasts.oneLine, lasts.isUtf8, lasts.fits⟩,
      fun ⟨oneLine, isUtf8, fits⟩ => ⟨oneLine, noReturn, isUtf8, fits⟩⟩

end Session.Prompted

namespace Command

open Session.Prompted (runOn turns)

/-- A history file that cannot be read counts as an empty one. -/
private theorem exists_loadHistory_eq (files : FileTree) (path : Option Bytes) :
    ∃ content, loadHistory files path = History.load lineLimit content := by
  unfold loadHistory
  split
  · exact ⟨_, rfl⟩
  · exact ⟨[], rfl⟩

private theorem loadHistory_saveHistory {files : FileTree} {path : Bytes} {location : Location}
    (isTarget : files.target path = .ok location) (notSink : files.find? location ≠ some .sink)
    (history : History) :
    loadHistory (saveHistory files (some path) history) (some path) =
      History.load lineLimit history.save := by
  obtain ⟨after, written⟩ := FileTree.exists_write_eq_ok isTarget history.save
  obtain ⟨-, content⟩ := FileTree.read_write isTarget written notSink
  rw [saveHistory, Option.map_some, written, loadHistory, Option.map_some, content]

/-- The next session finds the lines of the items that a session with prompts has held at its
end.  So it finds the same items just when each of them lasts.  A line that the session itself
has found fails to last by a carriage return at its end only, and a chunk that it has compiled
by a line feed in it, by bytes that are no UTF-8, or by its length. -/
theorem loadHistory_holdSession {environment : Environment} {world : World} {path : Bytes}
    {location : Location} (isPath : History.path? environment.home = some path)
    (isTarget : world.files.target path = .ok location)
    (notSink : world.files.find? location ≠ some .sink)
    (prompts : world.input.source.isInteractive = true) (colours : Bool)
    (surroundings : Surroundings) :
    let found := loadHistory world.files (some path)
    let lines := (world.input.bytes.pieces lineLimit).map Bytes.Piece.bytes
    let held :=
      (runOn colours found lineLimit world.input.bytes world.input.ending).history
    let next := loadHistory (holdSession environment colours world surroundings).files (some path)
    next = .ofLines ((held.fileLines.takeWhile (·.length ≤ lineLimit)).map Bytes.chomp) ∧
    (next = held ↔ ∀ item ∈ held, History.Lasts lineLimit item) ∧
    ∀ item ∈ held,
      (item ∈ found ∧
        (History.Lasts lineLimit item ↔ item.getLast? ≠ some Bytes.carriageReturn)) ∨
      ∃ turn ∈ turns lines, ∃ chunk code,
        turn.reply = .code chunk code ∧ item = chunk.trim ∧
        (History.Lasts lineLimit item ↔
          Bytes.lineFeed ∉ item ∧ item.isUtf8 = true ∧ item.length < lineLimit) := by
  intro found lines held next
  obtain ⟨content, isFound⟩ := exists_loadHistory_eq world.files (some path)
  have loaded : next = History.load lineLimit held.save := by
    have files :
        (holdSession environment colours world surroundings).files =
          saveHistory world.files (some path) held := by
      rw [holdSession, if_pos prompts, isPath]
    rw [← loadHistory_saveHistory isTarget notSink held, ← files]
  have everyWindow :=
    Session.Prompted.load_save_runOn lineLimit colours content world.input.bytes
      world.input.ending
  rw [← isFound] at everyWindow
  rw [loaded]
  exact everyWindow

/-- A call that goes over two lines, typed in a home folder without a history. -/
def brokenCall : World where
  files := { entries := [([utf8 "h"], .folder)] }
  input := { source := .device, bytes := utf8 "write(\n\"a\")\n" }

/-- A chunk of two lines is held as one item and found again as two. -/
theorem loadHistory_holdSession_brokenCall :
    let environment : Environment := { home := some (utf8 "/h") }
    let path := utf8 "/h/.triforce_history"
    let held :=
      (runOn false (loadHistory brokenCall.files (some path)) lineLimit brokenCall.input.bytes
        brokenCall.input.ending).history
    let next :=
      loadHistory (holdSession environment false brokenCall ⟨.basic, none⟩).files (some path)
    held = [utf8 "write(\n\"a\")"] ∧ next = [utf8 "write(", utf8 "\"a\")"] ∧
    ¬ ∀ item ∈ held, History.Lasts lineLimit item := by
  intro environment path held next
  have isPath : History.path? environment.home = some path := by
    decide +kernel
  have isTarget : brokenCall.files.target path = .ok [utf8 "h", utf8 ".triforce_history"] := by
    decide +kernel
  have notSink :
      brokenCall.files.find? [utf8 "h", utf8 ".triforce_history"] ≠ some .sink := by
    decide +kernel
  have isHeld : held = [utf8 "write(\n\"a\")"] := by
    decide +kernel
  obtain ⟨isNext, same, -⟩ :=
    loadHistory_holdSession isPath isTarget notSink rfl false ⟨.basic, none⟩
  have isSplit : next = [utf8 "write(", utf8 "\"a\")"] := isNext.trans (by decide +kernel)
  refine ⟨isHeld, isSplit, ?_⟩
  intro allLast
  have again : next = held := same.mpr allLast
  rw [isSplit, isHeld] at again
  exact absurd again (by decide)

end Command

end TriforceScript
