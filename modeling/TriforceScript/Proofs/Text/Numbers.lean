import TriforceScript.Text.Bytes

/-!
# Written numbers

The digits of a number, and the minus sign in front of it, are no control bytes.
-/

namespace TriforceScript

namespace Bytes

theorem exists_digitChar_of_mem_toDigits {base : Nat} (several : 1 < base) {number : Nat}
    {digit : Char} (member : digit ∈ Nat.toDigits base number) :
    ∃ value < base, digit = value.digitChar := by
  by_cases small : number < base
  · rw [Nat.toDigits_of_lt_base small, List.mem_singleton] at member
    exact ⟨number, small, member⟩
  · have smaller : number / base < number :=
      Nat.div_lt_self (by omega) several
    rw [Nat.toDigits_of_base_le several (by omega), List.mem_append, List.mem_singleton] at member
    rcases member with before | isLast
    · exact exists_digitChar_of_mem_toDigits several before
    · exact ⟨number % base, Nat.mod_lt number (by omega), isLast⟩
termination_by number

private theorem space_le_of_mem_digits {base : Nat} (several : 1 < base) (most : base ≤ 16)
    {number : Nat}
    {byte : UInt8} (member : byte ∈ (Nat.toDigits base number).flatMap String.utf8EncodeChar) :
    space ≤ byte := by
  have digits : ∀ value < 16, ∀ byte ∈ String.utf8EncodeChar (Nat.digitChar value), space ≤ byte := by
    decide +kernel
  obtain ⟨digit, inDigits, inByte⟩ := List.mem_flatMap.mp member
  obtain ⟨value, small, rfl⟩ := exists_digitChar_of_mem_toDigits several inDigits
  exact digits value (by omega) byte inByte

theorem space_le_of_mem_ofNat {number : Nat} {byte : UInt8} (member : byte ∈ ofNat number) :
    space ≤ byte :=
  space_le_of_mem_digits (by decide) (by decide) member

theorem space_le_of_mem_hex {number : Nat} {byte : UInt8} (member : byte ∈ hex number) :
    space ≤ byte :=
  space_le_of_mem_digits (by decide) (by decide) member

theorem space_le_of_mem_ofInt {number : Int} {byte : UInt8} (member : byte ∈ ofInt number) :
    space ≤ byte := by
  unfold ofInt at member
  split at member
  · rcases List.mem_cons.mp member with rfl | inDigits
    · decide
    · exact space_le_of_mem_ofNat inDigits
  · exact space_le_of_mem_ofNat member

end Bytes

end TriforceScript
