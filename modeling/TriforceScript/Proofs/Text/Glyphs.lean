import Mathlib.Data.List.DropRight
import TriforceScript.Text.Blank

/-!
# Texts and their glyphs

Reading a text as glyphs loses nothing: the bytes of its glyphs, one after the other, are
the text again, and the glyphs of a string are its characters.  A run of consecutive glyphs is
read in the same way when it stands alone, so that what is left of a text without the blanks at
its ends can be told from its glyphs.
-/

namespace TriforceScript

namespace Glyph

/-! ## Encoded characters -/

private theorem scalar?_eq_some {least code : Nat} {value : Char}
    (decoded : scalar? least code = some value) :
    least ≤ code ∧ value.val.toNat = code := by
  rw [scalar?] at decoded
  by_cases valid : code.isValidChar
  · rw [dif_pos valid] at decoded
    by_cases enough : least ≤ code
    · rw [if_pos enough] at decoded
      cases decoded
      exact ⟨enough, rfl⟩
    · rw [if_neg enough] at decoded
      cases decoded
  · rw [dif_neg valid] at decoded
    cases decoded

private theorem isTail_eq_true {byte : UInt8} (tail : isTail byte = true) :
    0x80 ≤ byte.toNat ∧ byte.toNat < 0xC0 := by
  simpa [isTail, UInt8.le_iff_toNat_le, UInt8.lt_iff_toNat_lt] using tail

theorem utf8EncodeChar_ascii {first : UInt8} (ascii : first < 0x80) :
    String.utf8EncodeChar (Char.ofNat first.toNat) = [first] := by
  have bound : first.toNat < 128 := UInt8.lt_iff_toNat_lt.mp ascii
  have valid : first.toNat.isValidChar := Or.inl (by omega)
  have code : (Char.ofNat first.toNat).val.toNat = first.toNat := by
    rw [Char.ofNat, dif_pos valid]
    rfl
  rw [String.utf8EncodeChar, code, if_pos (by omega), UInt8.ofNat_toNat]

/-- An ASCII byte in the encoding of a character is the whole of it. -/
theorem val_of_mem_utf8EncodeChar {value : Char} {byte : UInt8} (ascii : byte < 0x80)
    (member : byte ∈ String.utf8EncodeChar value) : value.val.toNat = byte.toNat := by
  have small : byte.toNat < 128 := UInt8.lt_iff_toNat_lt.mp ascii
  have large (number : Nat) (low : 128 ≤ number) (high : number < 256) :
      byte ≠ UInt8.ofNat number := by
    rintro rfl
    rw [UInt8.toNat_ofNat_of_lt' high] at small
    omega
  simp only [String.utf8EncodeChar] at member
  generalize value.val.toNat = code at member ⊢
  split at member
  · rw [List.mem_singleton] at member
    rw [member, UInt8.toNat_ofNat_of_lt' (by simp only [UInt8.size]; omega)]
  -- All bytes of the longer encodings are above the ASCII range.
  split at member
  · simp only [List.mem_cons, List.not_mem_nil, or_false] at member
    rcases member with isFirst | isLast
    · exact (large _ (by omega) (by omega) isFirst).elim
    · exact (large _ (by omega) (by omega) isLast).elim
  split at member
  · simp only [List.mem_cons, List.not_mem_nil, or_false] at member
    rcases member with isFirst | isSecond | isLast
    · exact (large _ (by omega) (by omega) isFirst).elim
    · exact (large _ (by omega) (by omega) isSecond).elim
    · exact (large _ (by omega) (by omega) isLast).elim
  · simp only [List.mem_cons, List.not_mem_nil, or_false] at member
    rcases member with isFirst | isSecond | isThird | isLast
    · exact (large _ (by omega) (by omega) isFirst).elim
    · exact (large _ (by omega) (by omega) isSecond).elim
    · exact (large _ (by omega) (by omega) isThird).elim
    · exact (large _ (by omega) (by omega) isLast).elim

section Decoded

variable {first a b c : UInt8} {value : Char}

private theorem utf8EncodeChar_two (low : 0xC0 ≤ first.toNat) (high : first.toNat < 0xE0)
    (tailA : isTail a = true)
    (decoded : scalar? 0x80 (first.toNat % 32 * 64 + tailBits a) = some value) :
    String.utf8EncodeChar value = [first, a] := by
  obtain ⟨least, code⟩ := scalar?_eq_some decoded
  obtain ⟨lowA, highA⟩ := isTail_eq_true tailA
  rw [tailBits] at code least
  have firstBits : (first.toNat % 32 * 64 + a.toNat % 64) / 64 % 32 + 192 = first.toNat := by
    omega
  have bitsA : (first.toNat % 32 * 64 + a.toNat % 64) % 64 + 128 = a.toNat := by
    omega
  rw [String.utf8EncodeChar, code, if_neg (by omega), if_pos (by omega), firstBits, bitsA]
  simp only [UInt8.ofNat_toNat]

private theorem utf8EncodeChar_three (low : 0xE0 ≤ first.toNat) (high : first.toNat < 0xF0)
    (tailA : isTail a = true) (tailB : isTail b = true)
    (decoded :
      scalar? 0x800 ((first.toNat % 16 * 64 + tailBits a) * 64 + tailBits b) = some value) :
    String.utf8EncodeChar value = [first, a, b] := by
  obtain ⟨least, code⟩ := scalar?_eq_some decoded
  obtain ⟨lowA, highA⟩ := isTail_eq_true tailA
  obtain ⟨lowB, highB⟩ := isTail_eq_true tailB
  rw [tailBits, tailBits] at code least
  generalize whole : (first.toNat % 16 * 64 + a.toNat % 64) * 64 + b.toNat % 64 = number at code least
  have firstBits : number / 4096 % 16 + 224 = first.toNat := by
    omega
  have bitsA : number / 64 % 64 + 128 = a.toNat := by
    omega
  have bitsB : number % 64 + 128 = b.toNat := by
    omega
  rw [String.utf8EncodeChar, code, if_neg (by omega), if_neg (by omega), if_pos (by omega),
    firstBits, bitsA, bitsB]
  simp only [UInt8.ofNat_toNat]

private theorem utf8EncodeChar_four (low : 0xF0 ≤ first.toNat) (high : first.toNat < 0xF8)
    (tailA : isTail a = true) (tailB : isTail b = true) (tailC : isTail c = true)
    (decoded :
      scalar? 0x10000
        (((first.toNat % 8 * 64 + tailBits a) * 64 + tailBits b) * 64 + tailBits c) =
          some value) :
    String.utf8EncodeChar value = [first, a, b, c] := by
  obtain ⟨least, code⟩ := scalar?_eq_some decoded
  obtain ⟨lowA, highA⟩ := isTail_eq_true tailA
  obtain ⟨lowB, highB⟩ := isTail_eq_true tailB
  obtain ⟨lowC, highC⟩ := isTail_eq_true tailC
  rw [tailBits, tailBits, tailBits] at code least
  generalize whole :
    ((first.toNat % 8 * 64 + a.toNat % 64) * 64 + b.toNat % 64) * 64 + c.toNat % 64 = number
      at code least
  have firstBits : number / 262144 % 8 + 240 = first.toNat := by
    omega
  have bitsA : number / 4096 % 64 + 128 = a.toNat := by
    omega
  have bitsB : number / 64 % 64 + 128 = b.toNat := by
    omega
  have bitsC : number % 64 + 128 = c.toNat := by
    omega
  rw [String.utf8EncodeChar, code, if_neg (by omega), if_neg (by omega), if_neg (by omega),
    firstBits, bitsA, bitsB, bitsC]
  simp only [UInt8.ofNat_toNat]

end Decoded

/-- A decoded character is encoded by the bytes it has been read from, and it is read from
these whatever follows them. -/
private theorem long?_eq_some {first : UInt8} {rest : Bytes} {value : Char}
    (decoded : long? first rest = some value) :
    ∃ tail behind,
      rest = tail ++ behind ∧ String.utf8EncodeChar value = first :: tail ∧
      ∀ other, long? first (tail ++ other) = some value := by
  unfold long? at decoded
  split at decoded
  · cases decoded
  rename_i notStray
  split at decoded
  · rename_i isTwo
    split at decoded
    · rename_i a behind
      split at decoded
      · rename_i tailA
        have low : 0xC0 ≤ first.toNat := by
          simpa [UInt8.lt_iff_toNat_lt] using notStray
        refine ⟨[a], behind, rfl,
          utf8EncodeChar_two low (UInt8.lt_iff_toNat_lt.mp isTwo) tailA decoded, ?_⟩
        intro other
        simp only [long?, List.cons_append, List.nil_append, notStray, isTwo, tailA, decoded,
          if_true, if_false]
      · cases decoded
    · cases decoded
  rename_i notTwo
  split at decoded
  · rename_i isThree
    split at decoded
    · rename_i a b behind
      split at decoded
      · rename_i tails
        have low : 0xE0 ≤ first.toNat := by
          simpa [UInt8.lt_iff_toNat_lt] using notTwo
        obtain ⟨tailA, tailB⟩ := Bool.and_eq_true_iff.mp tails
        refine ⟨[a, b], behind, rfl,
          utf8EncodeChar_three low (UInt8.lt_iff_toNat_lt.mp isThree) tailA tailB decoded, ?_⟩
        intro other
        simp only [long?, List.cons_append, List.nil_append, notStray, notTwo, isThree, tails,
          decoded, if_true, if_false]
      · cases decoded
    · cases decoded
  rename_i notThree
  split at decoded
  · rename_i isFour
    split at decoded
    · rename_i a b c behind
      split at decoded
      · rename_i tails
        have low : 0xF0 ≤ first.toNat := by
          simpa [UInt8.lt_iff_toNat_lt] using notThree
        obtain ⟨tailsAB, tailC⟩ := Bool.and_eq_true_iff.mp tails
        obtain ⟨tailA, tailB⟩ := Bool.and_eq_true_iff.mp tailsAB
        refine ⟨[a, b, c], behind, rfl,
          utf8EncodeChar_four low (UInt8.lt_iff_toNat_lt.mp isFour) tailA tailB tailC decoded, ?_⟩
        intro other
        simp only [long?, List.cons_append, List.nil_append, notStray, notTwo, notThree, isFour,
          tails, decoded, if_true, if_false]
      · cases decoded
    · cases decoded
  · cases decoded

/-! ## Characters that are encoded -/

private theorem scalar?_val {least : Nat} {value : Char} (enough : least ≤ value.val.toNat) :
    scalar? least value.val.toNat = some value := by
  have valid : value.val.toNat.isValidChar := value.valid
  rw [scalar?, dif_pos valid, if_pos enough]
  rfl

private theorem tail_ofNat (number : Nat) :
    isTail (UInt8.ofNat (number % 64 + 128)) = true ∧
      tailBits (UInt8.ofNat (number % 64 + 128)) = number % 64 := by
  have code : (UInt8.ofNat (number % 64 + 128)).toNat = number % 64 + 128 :=
    UInt8.toNat_ofNat_of_lt' (by simp only [UInt8.size]; omega)
  have low : (0x80 : UInt8) ≤ UInt8.ofNat (number % 64 + 128) := by
    rw [UInt8.le_iff_toNat_le, code]
    exact Nat.le_add_left _ _
  have high : UInt8.ofNat (number % 64 + 128) < 0xC0 := by
    rw [UInt8.lt_iff_toNat_lt, code]
    exact Nat.add_lt_add_right (Nat.mod_lt number (by decide)) 128
  constructor
  · rw [isTail, decide_eq_true low, decide_eq_true high, Bool.and_true]
  · rw [tailBits, code]
    omega

section Encoded

variable {first a b c : UInt8} {value : Char} (rest : Bytes)

private theorem front_two (low : 0xC0 ≤ first.toNat) (high : first.toNat < 0xE0)
    (tailA : isTail a = true)
    (decoded : scalar? 0x80 (first.toNat % 32 * 64 + tailBits a) = some value) :
    front first (a :: rest) = .char value := by
  have several : ¬ first.toNat < 0x80 := by
    omega
  simp [front, long?, UInt8.lt_iff_toNat_lt, several, Nat.not_lt.mpr low, high, tailA, decoded]

private theorem front_three (low : 0xE0 ≤ first.toNat) (high : first.toNat < 0xF0)
    (tailA : isTail a = true) (tailB : isTail b = true)
    (decoded :
      scalar? 0x800 ((first.toNat % 16 * 64 + tailBits a) * 64 + tailBits b) = some value) :
    front first (a :: b :: rest) = .char value := by
  have several : ¬ first.toNat < 0x80 := by
    omega
  have notStray : ¬ first.toNat < 0xC0 := by
    omega
  simp [front, long?, UInt8.lt_iff_toNat_lt, several, notStray, Nat.not_lt.mpr low, high, tailA,
    tailB, decoded]

private theorem front_four (low : 0xF0 ≤ first.toNat) (high : first.toNat < 0xF8)
    (tailA : isTail a = true) (tailB : isTail b = true) (tailC : isTail c = true)
    (decoded :
      scalar? 0x10000
        (((first.toNat % 8 * 64 + tailBits a) * 64 + tailBits b) * 64 + tailBits c) =
          some value) :
    front first (a :: b :: c :: rest) = .char value := by
  have several : ¬ first.toNat < 0x80 := by
    omega
  have notStray : ¬ first.toNat < 0xC0 := by
    omega
  have notTwo : ¬ first.toNat < 0xE0 := by
    omega
  simp [front, long?, UInt8.lt_iff_toNat_lt, several, notStray, notTwo, Nat.not_lt.mpr low, high,
    tailA, tailB, tailC, decoded]

end Encoded

/-- The encoding of a character is read as that character, whatever follows. -/
theorem front_utf8EncodeChar (value : Char) :
    ∃ first tail,
      String.utf8EncodeChar value = first :: tail ∧
      ∀ rest, front first (tail ++ rest) = .char value := by
  have scalar (least : Nat) (enough : least ≤ value.val.toNat) := scalar?_val enough
  have bound : value.val.toNat < 0x110000 := by
    have valid :
        value.val.toNat < 0xD800 ∨ 0xDFFF < value.val.toNat ∧ value.val.toNat < 0x110000 :=
      value.valid
    omega
  have byte (number : Nat) (small : number < 256) : (UInt8.ofNat number).toNat = number :=
    UInt8.toNat_ofNat_of_lt' small
  by_cases one : value.val.toNat ≤ 127
  · refine ⟨UInt8.ofNat value.val.toNat, [], ?_, ?_⟩
    · rw [String.utf8EncodeChar, if_pos one]
    · intro rest
      have ascii : UInt8.ofNat value.val.toNat < 0x80 := by
        rw [UInt8.lt_iff_toNat_lt, byte _ (by omega)]
        exact Nat.lt_succ_of_le one
      rw [front, if_pos ascii, byte _ (by omega)]
      exact congrArg char (Char.ofNat_toNat value)
  rw [String.utf8EncodeChar, if_neg one]
  generalize value.val.toNat = code at one scalar bound
  obtain ⟨tailA, bitsA⟩ := tail_ofNat code
  obtain ⟨tailB, bitsB⟩ := tail_ofNat (code / 64)
  obtain ⟨tailC, bitsC⟩ := tail_ofNat (code / 4096)
  by_cases two : code ≤ 2047
  · have head := byte (code / 64 % 32 + 192) (by omega)
    have whole : (code / 64 % 32 + 192) % 32 * 64 + code % 64 = code := by
      omega
    refine ⟨_, _, if_pos two, fun rest => front_two rest ?_ ?_ tailA ?_⟩
    · omega
    · omega
    · rw [head, bitsA, whole, scalar 0x80 (by omega)]
  rw [if_neg two]
  by_cases three : code ≤ 65535
  · have head := byte (code / 4096 % 16 + 224) (by omega)
    have whole :
        ((code / 4096 % 16 + 224) % 16 * 64 + code / 64 % 64) * 64 + code % 64 = code := by
      omega
    refine ⟨_, _, if_pos three, fun rest => front_three rest ?_ ?_ tailB tailA ?_⟩
    · omega
    · omega
    · rw [head, bitsA, bitsB, whole, scalar 0x800 (by omega)]
  · have head := byte (code / 262144 % 8 + 240) (by omega)
    have whole :
        (((code / 262144 % 8 + 240) % 8 * 64 + code / 4096 % 64) * 64 + code / 64 % 64) * 64 +
          code % 64 = code := by
      omega
    refine ⟨_, _, if_neg three, fun rest => front_four rest ?_ ?_ tailC tailB tailA ?_⟩
    · omega
    · omega
    · rw [head, bitsA, bitsB, bitsC, whole, scalar 0x10000 (by omega)]

/-! ## Single glyphs -/

/-- A glyph stands for the bytes it has been read from. -/
theorem front_bytes (first : UInt8) (rest : Bytes) :
    ∃ tail behind, rest = tail ++ behind ∧ (front first rest).bytes = first :: tail := by
  unfold front
  split
  · rename_i ascii
    exact ⟨[], rest, rfl, utf8EncodeChar_ascii ascii⟩
  · split
    · rename_i value decoded
      obtain ⟨tail, behind, shape, encoded, -⟩ := long?_eq_some decoded
      exact ⟨tail, behind, shape, encoded⟩
    · exact ⟨[], rest, rfl, rfl⟩

/-- A glyph is still read when some of the text behind it is taken away. -/
private theorem front_of_bytes {first : UInt8} {tail kept lost : Bytes}
    (bytes : (front first (tail ++ (kept ++ lost))).bytes = first :: tail) :
    front first (tail ++ kept) = front first (tail ++ (kept ++ lost)) := by
  unfold front at bytes ⊢
  by_cases ascii : first < 0x80
  · rw [if_pos ascii, if_pos ascii]
  rw [if_neg ascii] at bytes ⊢
  rw [if_neg ascii]
  cases decoded : long? first (tail ++ (kept ++ lost)) with
  | some value =>
      rw [decoded] at bytes
      obtain ⟨tail', behind, shape, encoded, stable⟩ := long?_eq_some decoded
      have sameBytes : first :: tail' = first :: tail := encoded.symm.trans bytes
      cases sameBytes
      rw [stable kept]
  | none =>
      -- With less text behind it the byte could only become a character if it were one already.
      cases decodedKept : long? first (tail ++ kept) with
      | none => rfl
      | some value =>
          obtain ⟨tail', behind, shape, -, stable⟩ := long?_eq_some decodedKept
          have longer := stable (behind ++ lost)
          rw [← List.append_assoc, ← shape, List.append_assoc, decoded] at longer
          cases longer

theorem long?_append {first : UInt8} {more : Bytes}
    (apart : ∀ byte ∈ more.head?, isTail byte = false) (rest : Bytes) :
    long? first (rest ++ more) = long? first rest := by
  cases more with
  | nil =>
      rw [List.append_nil]
  | cons byte behind =>
      have noTail : isTail byte = false := apart byte rfl
      -- At most three more bytes are looked at, and `byte` ends what can be decoded.
      match rest, behind with
      | [], [] => simp [long?, noTail]
      | [], [_] => simp [long?, noTail]
      | [], _ :: _ :: _ => simp [long?, noTail]
      | [_], [] => simp [long?, noTail]
      | [_], _ :: _ => simp [long?, noTail]
      | [_, _], _ => simp [long?, noTail]
      | _ :: _ :: _ :: _, _ => rfl

/-- A glyph is read in the same way whatever follows, unless that could continue it. -/
theorem front_append {first : UInt8} {more : Bytes}
    (apart : ∀ byte ∈ more.head?, isTail byte = false) (rest : Bytes) :
    front first (rest ++ more) = front first rest := by
  rw [front, front, long?_append apart]

end Glyph

namespace Bytes

/-! ## Whole texts -/

theorem ofGlyphs_append (first second : List Glyph) :
    ofGlyphs (first ++ second) = ofGlyphs first ++ ofGlyphs second :=
  List.flatMap_append

private theorem glyphsAfter_eq (skipped : Nat) (text : Bytes) :
    glyphsAfter skipped text = glyphs (text.drop skipped) := by
  induction text generalizing skipped with
  | nil =>
      cases skipped <;> rfl
  | cons first rest inductionHypothesis =>
      cases skipped with
      | zero => rfl
      | succ skipped =>
          rw [glyphsAfter, List.drop_succ_cons]
          exact inductionHypothesis skipped

theorem glyphs_cons {first : UInt8} {tail behind : Bytes}
    (bytes : (Glyph.front first (tail ++ behind)).bytes = first :: tail) :
    glyphs (first :: tail ++ behind) = Glyph.front first (tail ++ behind) :: glyphs behind := by
  have width : (Glyph.front first (tail ++ behind)).width - 1 = tail.length := by
    rw [Glyph.width, bytes]
    rfl
  rw [glyphs, List.cons_append, glyphsAfter, glyphsAfter_eq, width, List.drop_left]

/-- `ReadAs text read` means that the glyphs of `text` are `read`. -/
inductive ReadAs : Bytes → List Glyph → Prop
  | nil : ReadAs [] []
  | cons {first : UInt8} {tail behind : Bytes} {read : List Glyph} :
      (Glyph.front first (tail ++ behind)).bytes = first :: tail →
      ReadAs behind read →
      ReadAs (first :: tail ++ behind) (Glyph.front first (tail ++ behind) :: read)

namespace ReadAs

theorem glyphs_eq {text : Bytes} {read : List Glyph} (reads : ReadAs text read) :
    glyphs text = read := by
  induction reads with
  | nil =>
      rfl
  | cons bytes _ inductionHypothesis =>
      rw [glyphs_cons bytes, inductionHypothesis]

private theorem ofGlyphs_eq {text : Bytes} {read : List Glyph} (reads : ReadAs text read) :
    ofGlyphs read = text := by
  induction reads with
  | nil =>
      rfl
  | cons bytes _ inductionHypothesis =>
      rw [ofGlyphs, List.flatMap_cons, bytes]
      exact congrArg _ inductionHypothesis

end ReadAs

theorem readAs_glyphs (text : Bytes) : ReadAs text text.glyphs := by
  match text with
  | [] => exact .nil
  | first :: rest =>
      obtain ⟨tail, behind, rfl, bytes⟩ := Glyph.front_bytes first rest
      have reads := ReadAs.cons bytes (readAs_glyphs behind)
      rw [← List.cons_append, reads.glyphs_eq]
      exact reads
termination_by text.length
decreasing_by
  subst_vars
  simp only [List.length_cons, List.length_append]
  omega

/-- The bytes of the glyphs of a text are the text. -/
@[simp]
theorem ofGlyphs_glyphs (text : Bytes) : ofGlyphs text.glyphs = text :=
  (readAs_glyphs text).ofGlyphs_eq

namespace ReadAs

private theorem right {text : Bytes} {first second : List Glyph}
    (reads : ReadAs text (first ++ second)) :
    ReadAs (ofGlyphs second) second := by
  induction first generalizing text with
  | nil =>
      rw [List.nil_append] at reads
      rw [reads.ofGlyphs_eq]
      exact reads
  | cons glyph rest inductionHypothesis =>
      cases reads with
      | cons _ readsRest => exact inductionHypothesis readsRest

theorem left {text : Bytes} {first second : List Glyph} (reads : ReadAs text (first ++ second)) :
    ReadAs (ofGlyphs first) first := by
  induction first generalizing text with
  | nil =>
      exact .nil
  | cons glyph rest inductionHypothesis =>
      cases reads with
      | @cons byte tail behind _ bytes readsRest =>
          have shape : behind = ofGlyphs rest ++ ofGlyphs second := by
            rw [← ofGlyphs_append]
            exact readsRest.ofGlyphs_eq.symm
          subst shape
          -- The glyph is read from its own bytes, so that what is lost behind does not matter.
          have kept := Glyph.front_of_bytes bytes
          have bytesKept : (Glyph.front byte (tail ++ ofGlyphs rest)).bytes = byte :: tail := by
            rw [kept, bytes]
          have readsKept := ReadAs.cons bytesKept (inductionHypothesis readsRest)
          rw [kept] at readsKept
          have whole :
              ofGlyphs
                  (Glyph.front byte (tail ++ (ofGlyphs rest ++ ofGlyphs second)) :: rest) =
                byte :: tail ++ ofGlyphs rest := by
            rw [ofGlyphs, List.flatMap_cons, bytes]
            rfl
          rw [whole]
          exact readsKept

private theorem append {first second : Bytes} {read others : List Glyph} (reads : ReadAs first read)
    (readsSecond : ReadAs second others)
    (apart : ∀ byte ∈ second.head?, Glyph.isTail byte = false) :
    ReadAs (first ++ second) (read ++ others) := by
  induction reads with
  | nil =>
      exact readsSecond
  | @cons byte tail behind read bytes _ inductionHypothesis =>
      have same :
          Glyph.front byte (tail ++ (behind ++ second)) = Glyph.front byte (tail ++ behind) := by
        rw [← List.append_assoc]
        exact Glyph.front_append apart (tail ++ behind)
      rw [List.append_assoc, List.cons_append, ← same]
      rw [← same] at bytes
      exact .cons bytes inductionHypothesis

end ReadAs

/-- Two texts are read one after the other, unless the second could continue a glyph of the
first. -/
theorem glyphs_append (first : Bytes) {second : Bytes}
    (apart : ∀ byte ∈ second.head?, Glyph.isTail byte = false) :
    glyphs (first ++ second) = first.glyphs ++ second.glyphs :=
  (first.readAs_glyphs.append second.readAs_glyphs apart).glyphs_eq

/-- Encoded characters are read as these characters, whatever follows them. -/
theorem glyphs_encoded_append (chars : List Char) (rest : Bytes) :
    glyphs (chars.flatMap String.utf8EncodeChar ++ rest) = chars.map Glyph.char ++ glyphs rest := by
  induction chars with
  | nil =>
      rfl
  | cons value others inductionHypothesis =>
      obtain ⟨first, tail, encoded, reads⟩ := Glyph.front_utf8EncodeChar value
      let behind := others.flatMap String.utf8EncodeChar ++ rest
      have bytes : (Glyph.front first (tail ++ behind)).bytes = first :: tail := by
        rw [reads, Glyph.bytes, encoded]
      rw [List.flatMap_cons, List.append_assoc, encoded, glyphs_cons bytes, reads,
        inductionHypothesis]
      rfl

/-- The glyphs of a string are its characters. -/
theorem glyphs_utf8 (text : String) : glyphs (utf8 text) = text.toList.map Glyph.char := by
  have whole := glyphs_encoded_append text.toList []
  rwa [List.append_nil, show glyphs [] = [] from rfl, List.append_nil] at whole

/-! ## Trimming -/

/-- The glyphs of a text without the blanks at the two ends. -/
def core (text : Bytes) : List Glyph :=
  (text.glyphs.dropWhile Glyph.isBlank).rdropWhile Glyph.isBlank

private theorem trim_eq (text : Bytes) : text.trim = ofGlyphs text.core := rfl

private theorem exists_glyphs_eq_core (text : Bytes) :
    ∃ before behind, text.glyphs = before ++ (text.core ++ behind) := by
  obtain ⟨behind, shape⟩ :=
    List.rdropWhile_prefix Glyph.isBlank (text.glyphs.dropWhile Glyph.isBlank)
  refine ⟨text.glyphs.takeWhile Glyph.isBlank, behind, ?_⟩
  rw [core, shape, List.takeWhile_append_dropWhile]

private theorem glyphs_trim (text : Bytes) : text.trim.glyphs = text.core := by
  obtain ⟨before, behind, shape⟩ := text.exists_glyphs_eq_core
  have reads := text.readAs_glyphs
  rw [shape] at reads
  have readsCore : ReadAs (ofGlyphs text.core) text.core := reads.right.left
  rw [trim_eq, readsCore.glyphs_eq]

private theorem notBlank_of_mem_head?_core {text : Bytes} {glyph : Glyph}
    (isHead : glyph ∈ text.core.head?) : glyph.isBlank = false := by
  obtain ⟨behind, shape⟩ :=
    List.rdropWhile_prefix Glyph.isBlank (text.glyphs.dropWhile Glyph.isBlank)
  change text.core ++ behind = _ at shape
  have firstKept := List.head?_dropWhile_not Glyph.isBlank text.glyphs
  rw [← shape] at firstKept
  obtain ⟨others, kept⟩ := List.head?_eq_some_iff.mp isHead
  simpa [kept] using firstKept

private theorem notBlank_of_mem_getLast?_core {text : Bytes} {glyph : Glyph}
    (isLast : glyph ∈ text.core.getLast?) : glyph.isBlank = false := by
  obtain ⟨nonempty, rfl⟩ := List.mem_getLast?_eq_getLast isLast
  exact Bool.eq_false_iff.mpr (List.rdropWhile_last_not Glyph.isBlank _ nonempty)

/-- Whatever stands between blanks without a blank at its own ends is the core. -/
private theorem core_eq {text : Bytes} {before kept behind : List Glyph}
    (shape : text.glyphs = before ++ (kept ++ behind))
    (blankBefore : ∀ glyph ∈ before, glyph.isBlank = true)
    (blankBehind : ∀ glyph ∈ behind, glyph.isBlank = true)
    (starts : ∀ glyph ∈ kept.head?, glyph.isBlank = false)
    (ends : ∀ glyph ∈ kept.getLast?, glyph.isBlank = false) : text.core = kept := by
  rw [core, shape, List.dropWhile_append_of_pos blankBefore]
  cases kept with
  | nil =>
      rw [List.nil_append, List.dropWhile_eq_nil_iff.mpr blankBehind, List.rdropWhile_nil]
  | cons first rest =>
      have isFirst : ¬ first.isBlank = true := Bool.eq_false_iff.mp (starts first rfl)
      have isLast : ∀ nonempty, ¬ ((first :: rest).getLast nonempty).isBlank = true := by
        intro nonempty
        exact Bool.eq_false_iff.mp (ends _ (List.getLast?_eq_getLast_of_ne_nil nonempty))
      have blankReverse : ∀ glyph ∈ behind.reverse, glyph.isBlank = true := by
        simpa using blankBehind
      calc
        ((first :: rest ++ behind).dropWhile Glyph.isBlank).rdropWhile Glyph.isBlank
        _ = (first :: rest ++ behind).rdropWhile Glyph.isBlank := by
            rw [List.cons_append, List.dropWhile_cons_of_neg isFirst]
        _ = (first :: rest).rdropWhile Glyph.isBlank := by
            rw [List.rdropWhile, List.reverse_append, List.dropWhile_append_of_pos blankReverse]
            rfl
        _ = first :: rest := List.rdropWhile_eq_self_iff.mpr isLast

/-- Trimming leaves what stands between blanks and has no blank at its own ends, and nothing
else.  Which glyphs are blanks is up to their characters. -/
theorem trim_eq_iff {text kept : Bytes} :
    text.trim = kept ↔
      ∃ before behind,
        text.glyphs = before ++ (kept.glyphs ++ behind) ∧
        (∀ glyph ∈ before, glyph.isBlank = true) ∧
        (∀ glyph ∈ behind, glyph.isBlank = true) ∧
        (∀ glyph ∈ kept.glyphs.head?, glyph.isBlank = false) ∧
        ∀ glyph ∈ kept.glyphs.getLast?, glyph.isBlank = false := by
  constructor
  · rintro rfl
    rw [glyphs_trim]
    refine ⟨text.glyphs.takeWhile Glyph.isBlank,
      (text.glyphs.dropWhile Glyph.isBlank).rtakeWhile Glyph.isBlank, ?_,
      fun _ => List.mem_takeWhile_imp, fun _ => List.mem_rtakeWhile_imp,
      fun _ => notBlank_of_mem_head?_core, fun _ => notBlank_of_mem_getLast?_core⟩
    rw [core, List.rdropWhile_append_rtakeWhile, List.takeWhile_append_dropWhile]
  · rintro ⟨before, behind, shape, blankBefore, blankBehind, starts, ends⟩
    rw [trim_eq, core_eq shape blankBefore blankBehind starts ends, ofGlyphs_glyphs]

/-- Trimming twice is trimming once. -/
theorem trim_trim (text : Bytes) : text.trim.trim = text.trim := by
  obtain ⟨-, -, -, -, -, starts, ends⟩ := trim_eq_iff.mp (rfl : text.trim = text.trim)
  refine trim_eq_iff.mpr ⟨[], [], ?_, List.forall_mem_nil _, List.forall_mem_nil _, starts, ends⟩
  rw [List.append_nil, List.nil_append]

theorem mem_of_mem_trim {text : Bytes} {byte : UInt8} (member : byte ∈ text.trim) :
    byte ∈ text := by
  obtain ⟨before, behind, shape, -⟩ := trim_eq_iff.mp (rfl : text.trim = text.trim)
  have whole : text = ofGlyphs before ++ (text.trim ++ ofGlyphs behind) := by
    rw [← ofGlyphs_glyphs text.trim, ← ofGlyphs_append, ← ofGlyphs_append, ← shape,
      ofGlyphs_glyphs]
  rw [whole]
  exact List.mem_append_right _ (List.mem_append_left _ member)

theorem trim_space_cons (text : Bytes) : trim (space :: text) = text.trim := by
  have blank : Glyph.front space text = .char ' ' := rfl
  have bytes : (Glyph.front space ([] ++ text)).bytes = [space] := by
    rw [List.nil_append, blank]
    rfl
  have read : glyphs (space :: text) = .char ' ' :: glyphs text := by
    have step := glyphs_cons bytes
    rw [List.nil_append, blank] at step
    exact step
  rw [trim_eq, trim_eq, core, core, read]
  rfl

end Bytes

end TriforceScript
