import RobotsTxt.Text.Rune
import RobotsTxt.Text.CaseTable

/-!
# Ignoring case

Two ways to ignore case, both character by character and without regard to context.

* `Text.lower`: every character in lower case; a stray byte becomes U+FFFD.
* `Text.foldKey`: the folded code points of a text, and `Text.eqFold`, which compares them.

The two differ: U+0130 has the lower case `i` and folds to itself, and U+017F is its own lower case
and folds to `s`.
-/

namespace RobotsTxt

/-- The simple lower case of a code point. -/
def lowerRune (c : Nat) : Nat :=
  if c < 0x80 then (if 0x41 ≤ c && c ≤ 0x5A then c + 0x20 else c) else CaseRun.image lowerRuns c

/-- The simple case folding of a code point. -/
def foldRune (c : Nat) : Nat :=
  if c < 0x80 then (if 0x41 ≤ c && c ≤ 0x5A then c + 0x20 else c) else CaseRun.image foldRuns c

namespace Text

/-- The text in lower case. -/
def lower (t : Text) : Text := (runes t).flatMap fun r => encodeRune (lowerRune r.code)

/-- The folded code points of a text. -/
def foldKey (t : Text) : List Nat := (runes t).map fun r => foldRune r.code

/-- Whether two texts are equal up to case folding. -/
def eqFold (s t : Text) : Bool := foldKey s == foldKey t

end Text

end RobotsTxt
