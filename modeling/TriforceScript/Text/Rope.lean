import TriforceScript.Text.Bytes

/-!
# Ropes

A text that is put together from parts.  Putting parts together costs nothing, and
the whole text is written out once, in time proportional to its length.  Main
statement: the bytes of two ropes together are those of one and then the other.
-/

namespace TriforceScript

/-- A text in parts. -/
inductive Rope where
  /-- A text in one part. -/
  | leaf (text : Bytes)
  /-- One text and then another. -/
  | join (left right : Rope)
  deriving DecidableEq, Repr

namespace Rope

instance : Append Rope :=
  ⟨join⟩

instance : Coe Bytes Rope :=
  ⟨leaf⟩

/-- The bytes of a rope in front of the text `rest`. -/
def onto : Rope → Bytes → Bytes
  | .leaf text, rest => text ++ rest
  | .join left right, rest => left.onto (right.onto rest)

def bytes (rope : Rope) : Bytes :=
  rope.onto []

/-- What stands behind a rope does not change its bytes. -/
theorem onto_eq_append (rope : Rope) (rest : Bytes) : rope.onto rest = rope.bytes ++ rest := by
  induction rope generalizing rest with
  | leaf text =>
      simp [onto, bytes]
  | join left right leftHypothesis rightHypothesis =>
      rw [bytes, onto, onto, leftHypothesis, leftHypothesis (right.onto []),
        rightHypothesis rest, rightHypothesis []]
      simp

@[simp]
theorem bytes_leaf (text : Bytes) : (leaf text).bytes = text := by
  simp [bytes, onto]

@[simp]
theorem bytes_append (left right : Rope) : (left ++ right).bytes = left.bytes ++ right.bytes := by
  show left.onto (right.onto []) = _
  rw [onto_eq_append, bytes, onto_eq_append right]
  simp [bytes]

/-- A rope and then others, with a separator in front of each of them. -/
def separatedFrom (separator : Bytes) (first : Rope) (rest : List Rope) : Rope :=
  rest.foldl (fun whole rope => whole ++ leaf separator ++ rope) first

/-- Ropes with a separator between them. -/
def separated (separator : Bytes) : List Rope → Rope
  | [] => leaf []
  | first :: rest => separatedFrom separator first rest

/-- Every further rope stands behind a separator. -/
theorem bytes_separatedFrom (separator : Bytes) (first : Rope) (rest : List Rope) :
    (separatedFrom separator first rest).bytes =
      first.bytes ++ rest.flatMap fun rope => separator ++ rope.bytes := by
  induction rest generalizing first with
  | nil =>
      simp [separatedFrom]
  | cons second others inductionHypothesis =>
      have step := inductionHypothesis (first ++ leaf separator ++ second)
      simpa [separatedFrom] using step

end Rope

end TriforceScript
