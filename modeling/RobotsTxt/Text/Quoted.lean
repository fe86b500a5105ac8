import RobotsTxt.Text.Printable
import RobotsTxt.Text.Rune

/-!
# Quoted texts

A text between quotes, fit for a message of one line: the quote and the backslash are escaped, a
printable character stands for itself, and everything else is written as an escape sequence.

* `escapeRune`: the escaped form of one character.
* `Text.quote`: a text between double quotes.
* `Rune.quote`, `quoteByte`: a single character between single quotes.
-/

namespace RobotsTxt

/-- The lower-case hexadecimal digits of `n`, at least `width` of them. -/
def hexDigits (width n : Nat) : Text :=
  let digits := utf8 (String.ofList (Nat.toDigits 16 n))
  List.replicate (width - digits.length) 0x30 ++ digits

/-- The letter of a short escape sequence. -/
def escapeLetter? : Nat → Option String
  | 0x07 => some "\\a"
  | 0x08 => some "\\b"
  | 0x0C => some "\\f"
  | 0x0A => some "\\n"
  | 0x0D => some "\\r"
  | 0x09 => some "\\t"
  | 0x0B => some "\\v"
  | _ => none

/-- A code point as it is written between two `mark`s. -/
def escapeRune (mark : UInt8) (c : Nat) : Text :=
  if c == mark.toNat || c == 0x5C then [0x5C, .ofNat c]
  else if isPrintable c then encodeRune c
  else match escapeLetter? c with
    | some s => utf8 s
    | none =>
      if c < 0x80 then utf8 "\\x" ++ hexDigits 2 c
      else if c < 0x10000 then utf8 "\\u" ++ hexDigits 4 c
      else utf8 "\\U" ++ hexDigits 8 c

/-- A stray byte as it is written between two marks. -/
def escapeStray (r : Rune) : Text := utf8 "\\x" ++ hexDigits 2 (r.bytes.headD 0).toNat

namespace Text

/-- The text between double quotes; a stray byte is written as `\x` and its two digits. -/
def quote (t : Text) : Text :=
  let body := (runes t).flatMap fun r =>
    if r.isStray then escapeStray r else escapeRune 0x22 r.code
  [0x22] ++ body ++ [0x22]

end Text

/-- A character between single quotes; a stray byte is written as `\x` and its two digits. -/
def Rune.quote (r : Rune) : Text :=
  [0x27] ++ (if r.isStray then escapeStray r else escapeRune 0x27 r.code) ++ [0x27]

/-- The code point of a byte between single quotes. -/
def quoteByte (b : UInt8) : Text := [0x27] ++ escapeRune 0x27 b.toNat ++ [0x27]

end RobotsTxt
