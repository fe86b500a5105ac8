/-!
# Byte texts

A document is a list of bytes. It need not be valid UTF-8, and every offset counts bytes.

* `Text`: a byte text; `utf8` is the text of a string.
* `Text.slice`: the bytes between two offsets.
* `isBlank`, `isBreak`: the bytes that may surround a token, and the bytes that end a line.
* `Text.trimEnd`, `Text.trimBlanks`: a text without the blanks at its end, or at both ends.
-/

namespace RobotsTxt

/-- A byte text. -/
abbrev Text := List UInt8

/-- The UTF-8 bytes of a string. -/
def utf8 (s : String) : Text := s.toByteArray.data.toList

/-- Space, tab, vertical tab and form feed. -/
def isBlank (b : UInt8) : Bool := b == 0x20 || b == 0x09 || b == 0x0B || b == 0x0C

/-- Line feed and carriage return. -/
def isBreak (b : UInt8) : Bool := b == 0x0A || b == 0x0D

/-- The ASCII digits. -/
def isDigit (b : UInt8) : Bool := 0x30 ≤ b && b ≤ 0x39

/-- The ASCII letters. -/
def isLetter (b : UInt8) : Bool := (0x41 ≤ b && b ≤ 0x5A) || (0x61 ≤ b && b ≤ 0x7A)

/-- The value of a hexadecimal digit. -/
def hexValue? (b : UInt8) : Option Nat :=
  if isDigit b then some (b.toNat - 0x30)
  else if 0x61 ≤ b && b ≤ 0x66 then some (b.toNat - 0x57)
  else if 0x41 ≤ b && b ≤ 0x46 then some (b.toNat - 0x37)
  else none

/-- An ASCII capital as its small letter, every other byte as it is. -/
def lowerByte (b : UInt8) : UInt8 := if 0x41 ≤ b && b ≤ 0x5A then b + 0x20 else b

namespace Text

/-- The bytes from offset `a` up to, but not including, offset `b`. -/
def slice (t : Text) (a b : Nat) : Text := (t.drop a).take (b - a)

/-- The text without the blanks at its end. -/
def trimEnd (t : Text) : Text := (t.reverse.dropWhile isBlank).reverse

/-- The text without the blanks at its two ends. -/
def trimBlanks (t : Text) : Text := trimEnd (t.dropWhile isBlank)

/-- The part before the first `b`, and the part after it if there is one. -/
def cut (b : UInt8) (t : Text) : Text × Option Text :=
  match t.span (· != b) with
  | (before, []) => (before, none)
  | (before, _ :: after) => (before, some after)

/-- The part before the last `b`, if there is one, and the part after it. -/
def cutLast (b : UInt8) (t : Text) : Option Text × Text :=
  match cut b t.reverse with
  | (after, before?) => (before?.map List.reverse, after.reverse)

/-- A natural number in decimal digits. -/
def ofNat (n : Nat) : Text := utf8 n.repr

/-- An integer in decimal digits, with a minus sign when it is negative. -/
def ofInt : Int → Text
  | .ofNat n => ofNat n
  | .negSucc n => utf8 "-" ++ ofNat (n + 1)

/-- The order of byte texts by their first differing byte. -/
def le : Text → Text → Bool
  | [], _ => true
  | _ :: _, [] => false
  | a :: s, b :: t => a < b || (a == b && le s t)

end Text

end RobotsTxt
