import RobotsTxt.Text.Rune

/-!
# Unicode white space

The characters with the property White_Space, and a text without those at its two ends. They are
more than the four blanks that surround tokens.

* `isSpace`: the test.
* `Text.trimSpace`: the text without leading and trailing white space.
-/

namespace RobotsTxt

/-- The code points with the property White_Space. -/
def isSpace (c : Nat) : Bool :=
  (0x09 ≤ c && c ≤ 0x0D) || c == 0x20 || c == 0x85 || c == 0xA0 || c == 0x1680 ||
    (0x2000 ≤ c && c ≤ 0x200A) || c == 0x2028 || c == 0x2029 || c == 0x202F || c == 0x205F ||
    c == 0x3000

namespace Text

/-- The text without the white space at its two ends. -/
def trimSpace (t : Text) : Text :=
  let rest := (runes t).dropWhile fun r => isSpace r.code
  let inner := rest.reverse.dropWhile fun r => isSpace r.code
  inner.reverse.flatMap Rune.bytes

end Text

end RobotsTxt
