import RobotsTxt.Text.Bytes

/-!
# Characters of a byte text

A text is read as UTF-8 character by character. A byte that starts no well-formed sequence is a
character of its own, read as U+FFFD, so that every text can be read and no byte is lost.

* `Rune`: a code point together with the bytes it was read from.
* `Rune.read`: the character at the head of a text.
* `runes`: all characters of a text.
* `encodeRune`: the bytes of a code point.
-/

namespace RobotsTxt

/-- A character: its code point and the bytes it was read from. -/
structure Rune where
  code : Nat
  bytes : Text
  deriving Repr, DecidableEq

namespace Rune

/-- The code point that stands for a byte outside any well-formed sequence. -/
def replacement : Nat := 0xFFFD

/-- The length that the first byte of a sequence announces, and 1 for a byte that announces none. -/
def lengthAt (a : UInt8) : Nat :=
  if 0xC2 ≤ a && a ≤ 0xDF then 2
  else if 0xE0 ≤ a && a ≤ 0xEF then 3
  else if 0xF0 ≤ a && a ≤ 0xF4 then 4
  else 1

/-- A continuation byte. -/
def isTail (b : UInt8) : Bool := 0x80 ≤ b && b ≤ 0xBF

/-- The second bytes that may follow `a`: no overlong form, no surrogate, nothing above U+10FFFF. -/
def isSecond (a b : UInt8) : Bool :=
  (if a == 0xE0 then 0xA0 else if a == 0xF0 then 0x90 else 0x80) ≤ b &&
    b ≤ (if a == 0xED then 0x9F else if a == 0xF4 then 0x8F else 0xBF)

/-- The low six bits of a continuation byte. -/
def tailBits (b : UInt8) : Nat := b.toNat % 0x40

/-- The character at the head of the text `a :: rest`. -/
def read (a : UInt8) (rest : Text) : Rune :=
  match lengthAt a, rest with
  | 2, b :: _ =>
    if isSecond a b then ⟨(a.toNat % 0x20) * 0x40 + tailBits b, [a, b]⟩ else ⟨replacement, [a]⟩
  | 3, b :: c :: _ =>
    if isSecond a b && isTail c then
      ⟨((a.toNat % 0x10) * 0x40 + tailBits b) * 0x40 + tailBits c, [a, b, c]⟩
    else ⟨replacement, [a]⟩
  | 4, b :: c :: d :: _ =>
    if isSecond a b && isTail c && isTail d then
      ⟨(((a.toNat % 0x08) * 0x40 + tailBits b) * 0x40 + tailBits c) * 0x40 + tailBits d,
        [a, b, c, d]⟩
    else ⟨replacement, [a]⟩
  | _, _ => if a < 0x80 then ⟨a.toNat, [a]⟩ else ⟨replacement, [a]⟩

/-- A byte that stands outside any well-formed sequence. -/
def isStray (r : Rune) : Bool := r.code == replacement && r.bytes.length == 1

/-- The number of UTF-16 units of a character. -/
def units (r : Rune) : Nat := if 0x10000 ≤ r.code then 2 else 1

end Rune

/-- The characters of a text after its first `skip` bytes. -/
def runesFrom : (skip : Nat) → Text → List Rune
  | _, [] => []
  | 0, a :: t => Rune.read a t :: runesFrom ((Rune.read a t).bytes.length - 1) t
  | skip + 1, _ :: t => runesFrom skip t

/-- The characters of a text. -/
def runes (t : Text) : List Rune := runesFrom 0 t

/-- Whether a text is well-formed UTF-8. -/
def isUtf8 (t : Text) : Bool := (runes t).all (!·.isStray)

/-- The number of UTF-16 units of a text. -/
def units16 (t : Text) : Nat := (runes t).foldl (fun n r => n + r.units) 0

/-- The bytes of a code point; a number that is no code point is written as U+FFFD. -/
def encodeRune (c : Nat) : Text :=
  let tail (n : Nat) : UInt8 := .ofNat (0x80 + n % 0x40)
  if c < 0x80 then [.ofNat c]
  else if c < 0x800 then [.ofNat (0xC0 + c / 0x40), tail c]
  else if (0xD800 ≤ c && c < 0xE000) || 0x110000 ≤ c then [0xEF, 0xBF, 0xBD]
  else if c < 0x10000 then [.ofNat (0xE0 + c / 0x1000), tail (c / 0x40), tail c]
  else [.ofNat (0xF0 + c / 0x40000), tail (c / 0x1000), tail (c / 0x40), tail c]

end RobotsTxt
