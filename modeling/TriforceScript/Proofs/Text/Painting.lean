import TriforceScript.Proofs.Text.Plain

/-!
# Texts of any kind in colours

A text that is painted may hold escape sequences of its own, or end in the middle of one.
The sequence that ends the colour starts afresh in either case, so that nothing of the text
reaches what stands behind it.
-/

namespace TriforceScript

namespace Colour

/-- Where a sequence starts, it makes no difference what stands in front. -/
private theorem stripFrom_append_sequence (inside : Bool) (front behind : Bytes) :
    stripFrom inside (front ++ escape :: bracket :: behind) =
      stripFrom inside front ++ stripFrom true behind := by
  have different : escape ≠ bracket := by decide
  fun_induction stripFrom inside front with
  | case1 inside =>
      simp [stripFrom]
  | case2 byte =>
      simp [stripFrom, different]
  | case3 inside byte notInside =>
      simp [stripFrom, different, notInside]
  | case4 inside byte next rest starts inductionHypothesis =>
      rw [List.cons_append, List.cons_append, stripFrom, if_pos starts, inductionHypothesis]
  | case5 byte next rest other inductionHypothesis =>
      rw [List.cons_append, List.cons_append, stripFrom, if_neg other, if_pos rfl]
      exact inductionHypothesis
  | case6 inside byte next rest other notInside inductionHypothesis =>
      rw [List.cons_append, List.cons_append, stripFrom, if_neg other, if_neg notInside,
        List.cons_append]
      exact congrArg _ inductionHypothesis

private theorem stripFrom_append_reset (inside : Bool) (text rest : Bytes) :
    stripFrom inside (text ++ (reset.code ++ rest)) = stripFrom inside text ++ strip rest := by
  have sequence : reset.code ++ rest = escape :: bracket :: 0x30 :: 0x6D :: rest := rfl
  have ended : stripFrom true (0x30 :: 0x6D :: rest) = strip rest := by
    cases rest <;> rfl
  rw [sequence, stripFrom_append_sequence, ended]

private theorem length_stripFrom_le (inside : Bool) (text : Bytes) :
    (stripFrom inside text).length ≤ text.length := by
  fun_induction stripFrom inside text with
  | case1 | case2 | case3 =>
      simp
  | case4 | case5 | case6 =>
      simp only [List.length_cons] at *
      omega

private theorem strip_of_not_infix {text : Bytes} (noSequence : ¬ [escape, bracket] <:+: text) :
    strip text = text := by
  induction text with
  | nil =>
      rfl
  | cons byte rest inductionHypothesis =>
      have laterNone : ¬ [escape, bracket] <:+: rest := by
        intro later
        exact noSequence (List.infix_cons later)
      by_cases isEscape : byte = escape
      · cases rest with
        | nil =>
            rfl
        | cons next behind =>
            have notStart : ¬ (byte = escape ∧ next = bracket) := by
              rintro ⟨rfl, rfl⟩
              exact noSequence ⟨[], behind, rfl⟩
            rw [strip, stripFrom, if_neg notStart, if_neg Bool.false_ne_true]
            exact congrArg _ (inductionHypothesis laterNone)
      · rw [strip_cons isEscape, inductionHypothesis laterNone]

/-- Every sequence takes its first two bytes with it. -/
private theorem not_infix_of_strip_eq {text : Bytes} (same : strip text = text) :
    ¬ [escape, bracket] <:+: text := by
  rintro ⟨front, behind, rfl⟩
  have shape :
      front ++ [escape, bracket] ++ behind = front ++ escape :: bracket :: behind := by
    simp
  have lengths := congrArg List.length same
  rw [shape, strip, stripFrom_append_sequence, List.length_append, List.length_append,
    List.length_cons, List.length_cons] at lengths
  have frontLength := length_stripFrom_le false front
  have behindLength := length_stripFrom_le true behind
  omega

/-- A painted text leaves what it would leave by itself, whatever it holds, and what stands
behind it is not touched.  Taking colours out leaves a text alone just when no sequence starts
in it. -/
theorem strip_paint_append :
    (∀ (colour : Colour) (text rest : Bytes),
      strip (colour.paint true text ++ rest) = strip text ++ strip rest) ∧
    ∀ text : Bytes, strip text = text ↔ ¬ [escape, bracket] <:+: text := by
  refine ⟨?_, fun text => ⟨not_infix_of_strip_eq, strip_of_not_infix⟩⟩
  intro colour text rest
  calc
    strip (colour.paint true text ++ rest)
    _ = strip (colour.code ++ (text ++ (reset.code ++ rest))) := by
        rw [paint, if_pos rfl, List.append_assoc, List.append_assoc]
    _ = strip (text ++ (reset.code ++ rest)) := colour.strip_code_append _
    _ = strip text ++ strip rest := stripFrom_append_reset false text rest

end Colour

end TriforceScript
