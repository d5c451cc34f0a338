import TriforceScript.Proofs.Scan.Places

/-!
# Classes of characters and of bytes

A test on characters that all characters beyond ASCII pass, or all of them fail, is as good as
a test on bytes: the bytes of a glyph pass or fail together, as the glyph does.
-/

namespace TriforceScript

/-- All bytes of a character beyond ASCII are beyond ASCII. -/
private theorem Glyph.le_of_mem_utf8EncodeChar {value : Char} {byte : UInt8} (wide : ¬ byte < 0x80)
    (member : byte ∈ String.utf8EncodeChar value) : 0x80 ≤ value.toNat := by
  by_contra small
  rw [Nat.not_le] at small
  have code : (UInt8.ofNat value.toNat).toNat = value.toNat :=
    UInt8.toNat_ofNat_of_lt' (Nat.lt_trans small (by decide))
  have ascii : UInt8.ofNat value.toNat < 0x80 := by
    rw [UInt8.lt_iff_toNat_lt, code]
    exact small
  have encoded := utf8EncodeChar_ascii ascii
  rw [code, Char.ofNat_toNat] at encoded
  rw [encoded, List.mem_singleton] at member
  exact wide (member ▸ ascii)

theorem Lexeme.lt_of_isDigit {byte : UInt8} (isDigit : isDigit byte = true) : byte < 0x80 := by
  rw [Lexeme.isDigit, Bool.and_eq_true, decide_eq_true_eq, decide_eq_true_eq] at isDigit
  exact UInt8.lt_of_le_of_lt isDigit.2 (by decide)

theorem Lexeme.lt_of_isWordStart {byte : UInt8} (isStart : isWordStart byte = true) :
    byte < 0x80 := by
  simp only [isWordStart, Bool.or_eq_true, Bool.and_eq_true, decide_eq_true_eq,
    beq_iff_eq] at isStart
  rcases isStart with (lower | upper) | rfl
  · exact UInt8.lt_of_le_of_lt lower.2 (by decide)
  · exact UInt8.lt_of_le_of_lt upper.2 (by decide)
  · decide

/-- The letters of ASCII and the underscore. -/
def isLetter (value : Char) : Bool :=
  ('a' ≤ value && value ≤ 'z') || ('A' ≤ value && value ≤ 'Z') || value == '_'

/-- A test on bytes and one on characters that decide alike: on ASCII one by one, and on all the
rest as a whole. -/
structure Alike (test : UInt8 → Bool) (keep : Char → Bool) : Prop where
  ascii : ∀ byte : UInt8, byte < 0x80 → test byte = keep (Char.ofNat byte.toNat)
  others :
    ∀ (byte : UInt8) (value : Char), ¬ byte < 0x80 → 0x80 ≤ value.toNat → test byte = keep value

namespace Alike

/-! ## Glyphs -/

section Glyphs

variable {test : UInt8 → Bool} {keep : Char → Bool} (alike : Alike test keep)

include alike

theorem test_of_mem_front {first byte : UInt8} {rest : Bytes}
    (member : byte ∈ (Glyph.front first rest).bytes) :
    test byte = keep (Glyph.front first rest).shown := by
  cases read : Glyph.front first rest with
  | char value =>
      rw [read] at member
      by_cases ascii : byte < 0x80
      · have code : value.val.toNat = byte.toNat := Glyph.val_of_mem_utf8EncodeChar ascii member
        have same : Char.ofNat byte.toNat = value := by
          rw [← code]
          exact Char.ofNat_toNat value
        rw [alike.ascii byte ascii, same, Glyph.shown]
      · exact alike.others byte value ascii (Glyph.le_of_mem_utf8EncodeChar ascii member)
  | stray stray =>
      have high := Glyph.le_of_front_eq_stray read
      rw [read, Glyph.bytes, List.mem_singleton] at member
      rw [member]
      have wide : 0x80 ≤ (Char.ofNat 0xFFFD).toNat := by
        decide
      exact alike.others stray _ (UInt8.not_lt.mpr high) wide

theorem test_front (first : UInt8) (rest : Bytes) :
    test first = keep (Glyph.front first rest).shown := by
  obtain ⟨tail, behind, -, bytes⟩ := Glyph.front_bytes first rest
  apply alike.test_of_mem_front
  rw [bytes]
  exact List.mem_cons_self

theorem not : Alike (fun byte => !test byte) fun value => !keep value := by
  refine ⟨?_, ?_⟩
  · intro byte ascii
    rw [alike.ascii byte ascii]
  · intro byte value wide wideValue
    rw [alike.others byte value wide wideValue]

theorem or {test' : UInt8 → Bool} {keep' : Char → Bool} (alike' : Alike test' keep') :
    Alike (fun byte => test byte || test' byte) fun value => keep value || keep' value := by
  refine ⟨?_, ?_⟩
  · intro byte ascii
    rw [alike.ascii byte ascii, alike'.ascii byte ascii]
  · intro byte value wide wideValue
    rw [alike.others byte value wide wideValue, alike'.others byte value wide wideValue]

end Glyphs

/-! ## Classes within ASCII -/

/-- Tests that only ASCII can pass decide alike if they do so on ASCII. -/
private theorem of_ascii {test : UInt8 → Bool} {keep : Char → Bool}
    (ascii : ∀ code < 0x80, test (UInt8.ofNat code) = keep (Char.ofNat code))
    (narrow : ∀ byte, test byte = true → byte < 0x80)
    (narrowChars : ∀ value, keep value = true → value.toNat < 0x80) : Alike test keep := by
  refine ⟨?_, ?_⟩
  · intro byte isAscii
    rw [UInt8.lt_iff_toNat_lt] at isAscii
    rw [← ascii byte.toNat isAscii, UInt8.ofNat_toNat]
  · intro byte value wide wideValue
    rw [Bool.eq_false_iff.mpr fun passes => wide (narrow byte passes),
      Bool.eq_false_iff.mpr fun passes => Nat.not_lt.mpr wideValue (narrowChars value passes)]

theorem equal {mark : UInt8} (isAscii : mark < 0x80) :
    Alike (· == mark) (· == Char.ofNat mark.toNat) := by
  have small : mark.toNat < 0x80 := UInt8.lt_iff_toNat_lt.mp isAscii
  have code : ∀ code < 0x80, (Char.ofNat code).toNat = code := by
    decide +kernel
  refine of_ascii ?_ ?_ ?_
  · intro other smallOther
    have sameByte : (UInt8.ofNat other).toNat = other :=
      UInt8.toNat_ofNat_of_lt' (Nat.lt_trans smallOther (by decide))
    rw [Bool.eq_iff_iff, beq_iff_eq, beq_iff_eq, ← UInt8.toNat_inj, sameByte]
    constructor
    · intro same
      rw [same]
    · intro same
      have sameCode := congrArg Char.toNat same
      rwa [code other smallOther, code _ small] at sameCode
  · intro byte isMark
    rw [beq_iff_eq.mp isMark]
    exact isAscii
  · intro value isMark
    rw [beq_iff_eq.mp isMark, code _ small]
    exact small

theorem digit : Alike Lexeme.isDigit Char.isDigit := by
  refine of_ascii (by decide +kernel) (fun _ => Lexeme.lt_of_isDigit) ?_
  intro value isDigit
  rw [Char.isDigit, Bool.and_eq_true, decide_eq_true_eq, decide_eq_true_eq] at isDigit
  exact Nat.lt_of_le_of_lt (UInt32.le_iff_toNat_le.mp isDigit.2) (by decide)

theorem letter : Alike Lexeme.isWordStart isLetter := by
  refine of_ascii (by decide +kernel) (fun _ => Lexeme.lt_of_isWordStart) ?_
  intro value isStart
  simp only [isLetter, Bool.or_eq_true, Bool.and_eq_true, decide_eq_true_eq, beq_iff_eq] at isStart
  rcases isStart with (lower | upper) | rfl
  · exact Nat.lt_of_le_of_lt (UInt32.le_iff_toNat_le.mp lower.2) (by decide)
  · exact Nat.lt_of_le_of_lt (UInt32.le_iff_toNat_le.mp upper.2) (by decide)
  · decide

end Alike

end TriforceScript
