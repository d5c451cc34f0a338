/-!
# Byte strings

Sources, generated code, names and messages are byte strings.  They are usually
UTF-8, but nothing here assumes it.
-/

namespace TriforceScript

/-- A text as its bytes, which need not be UTF-8. -/
abbrev Bytes := List UInt8

/-- The UTF-8 bytes of a string. -/
def utf8 (text : String) : Bytes :=
  text.toList.flatMap String.utf8EncodeChar

namespace Bytes

/-- The byte that ends a line. -/
abbrev lineFeed : UInt8 := 0x0A

/-- The byte that a line end may have before its line feed. -/
abbrev carriageReturn : UInt8 := 0x0D

/-- The byte of a blank. -/
abbrev space : UInt8 := 0x20

/-- The byte that opens and closes a string. -/
abbrev quote : UInt8 := 0x22

/-- The decimal digits of a natural number, without leading zeros. -/
def ofNat (number : Nat) : Bytes :=
  (Nat.toDigits 10 number).flatMap String.utf8EncodeChar

/-- The decimal digits of an integer, after a minus sign if it is negative. -/
def ofInt (number : Int) : Bytes :=
  if number < 0 then 0x2D :: ofNat number.natAbs else ofNat number.natAbs

/-- The lower-case hexadecimal digits of a natural number. -/
def hex (number : Nat) : Bytes :=
  (Nat.toDigits 16 number).flatMap String.utf8EncodeChar

/-- `text` with zeros in front until it has at least `width` bytes. -/
def zeroFill (width : Nat) (text : Bytes) : Bytes :=
  List.replicate (width - text.length) 0x30 ++ text

end Bytes

end TriforceScript
