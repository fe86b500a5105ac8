import RobotsTxt.Canonical
import RobotsTxt.ContentChange

/-!
# Text edits

A change of a text as an ordered list of replacements, by byte offsets or by positions.

* `Replacement.applyAll`: the text after some replacements.
* `replacements`: replacements that turn one text into another and cut no character in two.
* `TextEdit.ofReplacement`, `TextEdit.applyAll`: the same by positions.
* `formattingEdits`: the edits that bring a document into canonical form.
-/

namespace RobotsTxt

/-! ## By offsets -/

/-- The bytes from `start` to `stop` give way to `new`. -/
structure Replacement where
  start : Nat
  stop : Nat
  new : Text
  deriving Repr, DecidableEq

namespace Replacement

/-- The text from an offset on after some replacements, which are in order and do not overlap. -/
def applyFrom (t : Text) : (offset : Nat) → List Replacement → Text
  | offset, [] => t.drop offset
  | offset, r :: rs => t.slice offset r.start ++ r.new ++ applyFrom t r.stop rs

/-- The text after some replacements, which are in order and do not overlap. -/
def applyAll (t : Text) (rs : List Replacement) : Text := applyFrom t 0 rs

end Replacement

/-- The bytes of some characters. -/
def bytesOf (rs : List Rune) : Text := rs.flatMap Rune.bytes

/-- Replacements that turn one text into another: none when they are equal, else a single one of
whole characters. Others would do as well, as long as they cut no character in two. -/
def replacements (before after : Text) : List Replacement :=
  if before == after then []
  else
    let old := runes before
    let new := runes after
    let front := commonLength old new
    let back := commonLength (old.drop front).reverse (new.drop front).reverse
    let start := (bytesOf (old.take front)).length
    let gone := (old.drop front).take (old.length - front - back)
    let come := (new.drop front).take (new.length - front - back)
    [⟨start, start + (bytesOf gone).length, bytesOf come⟩]

/-! ## By positions -/

/-- The text in a range gives way to another. -/
structure TextEdit where
  range : Range
  newText : Text
  deriving Repr, DecidableEq

namespace TextEdit

/-- A replacement by positions. -/
def ofReplacement (t : Text) (r : Replacement) : Except SpanFault TextEdit :=
  (t.rangeOf ⟨r.start, r.stop⟩).map fun range => ⟨range, r.new⟩

/-- An edit by offsets. -/
def toReplacement (t : Text) (e : TextEdit) : Except RangeFault Replacement :=
  (t.offsetsOf e.range).map fun (start, stop) => ⟨start, stop, e.newText⟩

/-- The text after some edits, all of whose ranges refer to the text before them. -/
def applyAll (t : Text) (es : List TextEdit) : Except RangeFault Text :=
  (es.mapM (toReplacement t)).map (Replacement.applyAll t)

end TextEdit

/-- The edits that bring a document into canonical form, where `diff` finds the replacements between
two texts. -/
def formattingEdits (diff : Text → Text → List Replacement) (t : Tree) :
    Except SpanFault (List TextEdit) :=
  (diff t.snapshot.text t.canonical).mapM (TextEdit.ofReplacement t.snapshot.text)

end RobotsTxt
