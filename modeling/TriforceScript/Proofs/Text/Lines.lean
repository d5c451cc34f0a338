import TriforceScript.Text.Lines

/-!
# Texts line by line

A text is a last line without a line feed, or a line with one and then another text.  Taken
through a window that no line is too long for, the pieces of a text are its lines.
-/

namespace TriforceScript

namespace Bytes

/-- What holds of a last line, and of every text with one more line in front, holds of all
texts. -/
private theorem line_induction {motive : Bytes → Prop}
    (last : ∀ text, lineFeed ∉ text → motive text)
    (line : ∀ front behind, lineFeed ∉ front → motive behind →
      motive (front ++ lineFeed :: behind)) (text : Bytes) : motive text := by
  by_cases more : lineFeed ∈ text
  · obtain ⟨front, behind, shape, noLineFeed⟩ := List.eq_append_cons_of_mem more
    rw [shape]
    exact line front behind noLineFeed (line_induction last line behind)
  · exact last text more
termination_by text.length
decreasing_by
  rw [shape, List.length_append, List.length_cons]
  omega

/-! ## Whole lines -/

private theorem splitLines_of_notMem {text : Bytes} (noLineFeed : lineFeed ∉ text) :
    splitLines text = ([], text) := by
  induction text with
  | nil =>
      rfl
  | cons byte rest inductionHypothesis =>
      rw [List.mem_cons, not_or] at noLineFeed
      obtain ⟨notFirst, notLater⟩ := noLineFeed
      rw [splitLines, inductionHypothesis notLater]
      exact if_neg (Ne.symm notFirst)

theorem splitLines_line {front : Bytes} (noLineFeed : lineFeed ∉ front) (behind : Bytes) :
    splitLines (front ++ lineFeed :: behind) =
      ((front ++ [lineFeed]) :: (splitLines behind).1, (splitLines behind).2) := by
  induction front with
  | nil =>
      rfl
  | cons byte rest inductionHypothesis =>
      rw [List.mem_cons, not_or] at noLineFeed
      obtain ⟨notFirst, notLater⟩ := noLineFeed
      rw [List.cons_append, splitLines, inductionHypothesis notLater]
      exact if_neg (Ne.symm notFirst)

private theorem getLast?_ne_of_notMem {text : Bytes} (noLineFeed : lineFeed ∉ text) :
    text.getLast? ≠ some lineFeed := by
  intro last
  exact noLineFeed (List.mem_of_getLast? last)

private theorem chomp_of_notMem {text : Bytes} (noLineFeed : lineFeed ∉ text) :
    text.chomp = text := by
  rw [chomp, if_neg (getLast?_ne_of_notMem noLineFeed)]

private theorem textLines_of_notMem {text : Bytes} (noLineFeed : lineFeed ∉ text) :
    text.textLines = if text = [] then [] else [text] := by
  rw [textLines, splitLines_of_notMem noLineFeed]
  rfl

private theorem textLines_line {front : Bytes} (noLineFeed : lineFeed ∉ front) (behind : Bytes) :
    textLines (front ++ lineFeed :: behind) =
      chomp (front ++ [lineFeed]) :: behind.textLines := by
  rw [textLines, splitLines_line noLineFeed]
  rfl

/-- Lines are counted apart on both sides of a place behind a line feed. -/
theorem splitLines_append {front : Bytes} (whole : front.splitLines.2 = []) (behind : Bytes) :
    splitLines (front ++ behind) =
      (front.splitLines.1 ++ behind.splitLines.1, behind.splitLines.2) := by
  induction front using line_induction with
  | last text noLineFeed =>
      rw [splitLines_of_notMem noLineFeed] at whole
      rw [show text = [] from whole]
      rfl
  | line front rest noLineFeed inductionHypothesis =>
      rw [splitLines_line noLineFeed] at whole ⊢
      rw [List.append_assoc, List.cons_append, splitLines_line noLineFeed,
        inductionHypothesis whole]
      rfl

theorem splitLines_concat (text : Bytes) : (splitLines (text ++ [lineFeed])).2 = [] := by
  induction text using line_induction with
  | last text noLineFeed =>
      rw [splitLines_line noLineFeed]
      rfl
  | line front behind noLineFeed inductionHypothesis =>
      rw [List.append_assoc, List.cons_append, splitLines_line noLineFeed]
      exact inductionHypothesis

theorem chomp_concat (body : Bytes) :
    chomp (body ++ [lineFeed]) =
      if body.getLast? = some carriageReturn then body.dropLast else body := by
  rw [chomp, if_pos List.getLast?_concat, List.dropLast_concat]

private theorem chomp_concat_isPrefix (body : Bytes) : chomp (body ++ [lineFeed]) <+: body := by
  rw [chomp_concat]
  split
  · exact List.dropLast_prefix body
  · exact List.prefix_refl body

/-- A line end takes a carriage return in front of it along. -/
theorem chomp_concat_eq_iff {body : Bytes} :
    chomp (body ++ [lineFeed]) = body ↔ body.getLast? ≠ some carriageReturn := by
  rw [chomp_concat]
  by_cases returns : body.getLast? = some carriageReturn
  · obtain ⟨front, rfl⟩ := List.getLast?_eq_some_iff.mp returns
    simp
  · rw [if_neg returns]
    simp [returns]

/-- Without carriage returns, a line is what is left of it and its line feed. -/
theorem chomp_append_lineFeed {line : Bytes} (ends : line.getLast? = some lineFeed)
    (noReturn : carriageReturn ∉ line) : line.chomp ++ [lineFeed] = line := by
  obtain ⟨body, rfl⟩ := List.getLast?_eq_some_iff.mp ends
  have bodyEnds : body.getLast? ≠ some carriageReturn := by
    intro last
    exact noReturn (List.mem_append_left _ (List.mem_of_getLast? last))
  rw [chomp, if_pos ends, List.dropLast_concat]
  simp only [if_neg bodyEnds]

/-! ## Pieces -/

private theorem piecesAfter_eq (limit skipped : Nat) (text : Bytes) :
    piecesAfter limit skipped text = pieces limit (text.drop skipped) := by
  induction text generalizing skipped with
  | nil =>
      cases skipped <;> rfl
  | cons byte rest inductionHypothesis =>
      cases skipped with
      | zero => rfl
      | succ skipped =>
          rw [piecesAfter, List.drop_succ_cons]
          exact inductionHypothesis skipped

/-- The first piece is followed by those of the text behind it. -/
private theorem pieces_of_firstPiece {limit taken : Nat} {text : Bytes} {piece : Piece}
    (nonempty : text ≠ []) (first : firstPiece limit text = (piece, taken)) (some : 0 < taken) :
    pieces limit text = piece :: pieces limit (text.drop taken) := by
  cases text with
  | nil => exact (nonempty rfl).elim
  | cons byte rest =>
      obtain ⟨others, rfl⟩ := Nat.exists_eq_succ_of_ne_zero (Nat.pos_iff_ne_zero.mp some)
      rw [pieces, piecesAfter, first]
      simp only [Nat.succ_eq_add_one, Nat.add_sub_cancel, piecesAfter_eq, List.drop_succ_cons]

private theorem lineWithin_of_notMem {limit : Nat} {text : Bytes} (noLineFeed : lineFeed ∉ text)
    (fits : text.length ≤ limit) : lineWithin limit text = text := by
  induction text generalizing limit with
  | nil =>
      cases limit <;> rfl
  | cons byte rest inductionHypothesis =>
      rw [List.mem_cons, not_or] at noLineFeed
      obtain ⟨notFirst, notLater⟩ := noLineFeed
      rw [List.length_cons] at fits
      obtain ⟨limit, rfl⟩ : ∃ smaller, limit = smaller + 1 := ⟨limit - 1, by omega⟩
      rw [lineWithin, if_neg (Ne.symm notFirst), inductionHypothesis notLater (by omega)]

private theorem lineWithin_line {limit : Nat} {front : Bytes} (noLineFeed : lineFeed ∉ front)
    (fits : front.length < limit) (behind : Bytes) :
    lineWithin limit (front ++ lineFeed :: behind) = front ++ [lineFeed] := by
  induction front generalizing limit with
  | nil =>
      obtain ⟨limit, rfl⟩ : ∃ smaller, limit = smaller + 1 := ⟨limit - 1, by omega⟩
      rfl
  | cons byte rest inductionHypothesis =>
      rw [List.mem_cons, not_or] at noLineFeed
      obtain ⟨notFirst, notLater⟩ := noLineFeed
      rw [List.length_cons] at fits
      obtain ⟨limit, rfl⟩ : ∃ smaller, limit = smaller + 1 := ⟨limit - 1, by omega⟩
      rw [List.cons_append, lineWithin, if_neg (Ne.symm notFirst),
        inductionHypothesis notLater (by omega)]
      rfl

/-- Whether every line of a text fits into a window of `limit` bytes, the last one with
room for the line feed that it does without. -/
def Fits (limit : Nat) (text : Bytes) : Prop :=
  (∀ line ∈ text.splitLines.1, line.length ≤ limit) ∧ text.splitLines.2.length < limit

/-- The pieces of a text whose lines fit are its lines. -/
theorem map_bytes_pieces {limit : Nat} {text : Bytes} (fits : text.Fits limit) :
    (text.pieces limit).map Piece.bytes = text.textLines := by
  induction text using line_induction with
  | last text noLineFeed =>
      rw [textLines_of_notMem noLineFeed]
      by_cases empty : text = []
      · rw [if_pos empty, empty]
        rfl
      · have room : text.length < limit := by
          simpa [Fits, splitLines_of_notMem noLineFeed] using fits
        have first : firstPiece limit text = (⟨text, true⟩, text.length) := by
          simp only [firstPiece, lineWithin_of_notMem noLineFeed (Nat.le_of_lt room), room,
            or_true, if_true, chomp_of_notMem noLineFeed]
        rw [if_neg empty, pieces_of_firstPiece empty first (List.length_pos_iff.mpr empty),
          List.drop_length]
        rfl
  | line front behind noLineFeed inductionHypothesis =>
      rw [Fits, splitLines_line noLineFeed] at fits
      obtain ⟨lines, remainder⟩ := fits
      rw [List.forall_mem_cons, List.length_append, List.length_singleton] at lines
      have first :
          firstPiece limit (front ++ lineFeed :: behind) =
            (⟨chomp (front ++ [lineFeed]), true⟩, front.length + 1) := by
        simp [firstPiece, lineWithin_line noLineFeed lines.1]
      rw [pieces_of_firstPiece (by simp) first (Nat.succ_pos _), textLines_line noLineFeed,
        List.map_cons, List.drop_length_add_append, List.drop_one, List.tail_cons,
        inductionHypothesis ⟨lines.2, remainder⟩]

private theorem lineWithin_cases (limit : Nat) (text : Bytes) :
    ∃ body, lineFeed ∉ body ∧
      (lineWithin limit text = body ∨
        lineWithin limit text = body ++ [lineFeed] ∧ body.length < limit) := by
  induction text generalizing limit with
  | nil =>
      exact ⟨[], List.not_mem_nil, .inl (by cases limit <;> rfl)⟩
  | cons byte rest inductionHypothesis =>
      cases limit with
      | zero => exact ⟨[], List.not_mem_nil, .inl rfl⟩
      | succ limit =>
          by_cases ends : byte = lineFeed
          · exact ⟨[], List.not_mem_nil, .inr ⟨if_pos ends, Nat.succ_pos limit⟩⟩
          · obtain ⟨body, noLineFeed, shape⟩ := inductionHypothesis limit
            have stillNone : lineFeed ∉ byte :: body := by
              simp [Ne.symm ends, noLineFeed]
            rw [lineWithin, if_neg ends]
            refine ⟨byte :: body, stillNone, ?_⟩
            rcases shape with isBody | ⟨isLine, short⟩
            · exact .inl (congrArg _ isBody)
            · exact .inr ⟨congrArg _ isLine, Nat.succ_lt_succ short⟩

/-- No piece holds a line feed, and one that ends a line leaves room for it. -/
theorem firstPiece_fits (limit : Nat) (text : Bytes) :
    lineFeed ∉ (firstPiece limit text).1.bytes ∧
      ((firstPiece limit text).1.ends = true → (firstPiece limit text).1.bytes.length < limit) := by
  obtain ⟨body, noLineFeed, shape⟩ := lineWithin_cases limit text
  rw [firstPiece]
  rcases shape with isBody | ⟨isLine, short⟩
  · rw [isBody]
    by_cases short : body.length < limit
    · rw [if_pos (.inr short), chomp_of_notMem noLineFeed]
      exact ⟨noLineFeed, fun _ => short⟩
    · simp only [getLast?_ne_of_notMem noLineFeed, short, or_self, if_false]
      split
      · exact ⟨fun member => noLineFeed (List.dropLast_subset _ member), nofun⟩
      · exact ⟨noLineFeed, nofun⟩
  · have within := chomp_concat_isPrefix body
    rw [isLine, if_pos (.inl List.getLast?_concat)]
    exact ⟨fun member => noLineFeed (within.mem member),
      fun _ => Nat.lt_of_le_of_lt within.length_le short⟩

theorem exists_firstPiece_of_mem {limit skipped : Nat} {text : Bytes} {piece : Piece}
    (member : piece ∈ piecesAfter limit skipped text) :
    ∃ rest, piece = (firstPiece limit rest).1 := by
  induction text generalizing skipped with
  | nil =>
      cases skipped <;> cases member
  | cons byte rest inductionHypothesis =>
      cases skipped with
      | zero =>
          rcases List.mem_cons.mp member with isFirst | isLater
          · exact ⟨byte :: rest, isFirst⟩
          · exact inductionHypothesis isLater
      | succ skipped => exact inductionHypothesis member

/-- A line that does not fit gives a piece that does not end it. -/
private theorem ends_firstPiece_of_long {limit : Nat} {front : Bytes}
    (noLineFeed : lineFeed ∉ front) (long : limit ≤ front.length) (behind : Bytes) :
    (firstPiece limit (front ++ lineFeed :: behind)).1.ends = false := by
  have window : lineWithin limit (front ++ lineFeed :: behind) = front.take limit := by
    induction front generalizing limit with
    | nil =>
        obtain rfl : limit = 0 := Nat.le_zero.mp long
        rfl
    | cons byte rest inductionHypothesis =>
        rw [List.mem_cons, not_or] at noLineFeed
        cases limit with
        | zero => rfl
        | succ limit =>
            rw [List.cons_append, lineWithin, if_neg (Ne.symm noLineFeed.1),
              inductionHypothesis noLineFeed.2 (Nat.le_of_succ_le_succ long), List.take_succ_cons]
  have noEnd : (front.take limit).getLast? ≠ some lineFeed :=
    getLast?_ne_of_notMem fun member => noLineFeed (List.mem_of_mem_take member)
  have full : (front.take limit).length = limit := List.length_take_of_le long
  rw [firstPiece, window]
  simp only [noEnd, full, Nat.lt_irrefl, or_self, if_false]
  split <;> rfl

/-- Of whole lines, those up to the first one that does not fit are taken in one piece. -/
theorem takeWhile_ends_pieces {limit : Nat} {text : Bytes} (whole : text.splitLines.2 = []) :
    ((text.pieces limit).takeWhile Piece.ends).map Piece.bytes =
      (text.splitLines.1.takeWhile (·.length ≤ limit)).map chomp := by
  induction text using line_induction with
  | last text noLineFeed =>
      rw [splitLines_of_notMem noLineFeed] at whole
      rw [show text = [] from whole]
      rfl
  | line front behind noLineFeed inductionHypothesis =>
      rw [splitLines_line noLineFeed] at whole ⊢
      dsimp only at whole ⊢
      by_cases fits : front.length < limit
      · have first :
            firstPiece limit (front ++ lineFeed :: behind) =
              (⟨chomp (front ++ [lineFeed]), true⟩, front.length + 1) := by
          simp [firstPiece, lineWithin_line noLineFeed fits]
        have short : (front ++ [lineFeed]).length ≤ limit := by
          rw [List.length_append, List.length_singleton]
          exact fits
        rw [pieces_of_firstPiece (by simp) first (Nat.succ_pos _), List.drop_length_add_append,
          List.drop_one, List.tail_cons, List.takeWhile_cons_of_pos rfl,
          List.takeWhile_cons_of_pos (by simpa using short), List.map_cons, List.map_cons,
          inductionHypothesis whole]
      · have unended := ends_firstPiece_of_long noLineFeed (Nat.le_of_not_lt fits) behind
        have long : ¬ (front ++ [lineFeed]).length ≤ limit := by
          rw [List.length_append, List.length_singleton]
          omega
        obtain ⟨byte, rest, shape⟩ := List.exists_cons_of_ne_nil
          (List.append_ne_nil_of_right_ne_nil front (List.cons_ne_nil lineFeed behind))
        rw [List.takeWhile_cons_of_neg (by simpa using long), shape, pieces, piecesAfter]
        rw [shape] at unended
        rw [List.takeWhile_cons_of_neg (by simp [unended])]
        rfl

end Bytes

end TriforceScript
