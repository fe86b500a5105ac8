import RobotsTxt.Document.Basic

/-!
# Changes between two versions of a text

A change replaces a span of the old text by a span of the new one. A list of changes carries offsets
of the old text to the new text, and tells which records have to be looked at again.

* `Change`: one replacement, seen from both texts.
* `translatePoint`, `translateSpan`: old offsets in the new text.
* `impact?`: the smallest span of the new text that covers every record that a change touches, in
  either text.
-/

namespace RobotsTxt

/-- A replacement: the span it removes from the old text, and the span it fills in the new one. -/
structure Change where
  old : Span
  new : Span
  deriving Repr, DecidableEq

/-- Where an offset goes that stands exactly at the edge of a change. -/
inductive Tracking where
  /-- It stays in front of text inserted at its place. -/
  | before
  /-- It moves behind text inserted at its place. -/
  | after
  deriving Repr, DecidableEq

namespace Change

/-- Changes in the order of their places in the old text; changes at one place keep their order. -/
def sorted (changes : List Change) : List Change :=
  changes.mergeSort fun a b => a.old.start ≤ b.old.start

/-- Carries an offset through sorted changes, where `shift` is how far the last change that it
passed has moved it. -/
def carry (tracking : Tracking) (pos : Int) : (shift : Int) → List Change → Int
  | shift, [] => pos + shift
  | shift, c :: cs =>
    if pos < c.old.start ∨ (pos = c.old.start ∧ tracking = .before) then pos + shift
    else if pos < c.old.stop then
      match tracking with
      | .before => c.new.start
      | .after => c.new.stop
    else carry tracking pos (c.new.stop - c.old.stop) cs

end Change

/-- The offset of the new text that an offset of the old text becomes. An offset inside replaced
text goes to the start or to the end of its replacement. -/
def translatePoint (changes : List Change) (tracking : Tracking) (pos : Int) : Int :=
  Change.carry tracking pos 0 (Change.sorted changes)

/-- The span of the new text that a span of the old text becomes. Text inserted at either edge ends
up inside it. -/
def translateSpan (changes : List Change) (s : Span) : Span :=
  let start := translatePoint changes .before s.start
  ⟨start, max start (translatePoint changes .after s.stop)⟩

/-! ## Impact -/

/-- The span from the first to the last record that touches one of the given spans. -/
def Document.touched? (d : Document) (places : List Span) : Option Span :=
  let hit := d.records.filter fun r => places.any fun s => r.span.touches s
  match hit.head?, hit.getLast? with
  | some first, some last => some ⟨first.span.start, last.span.stop⟩
  | _, _ => none

/-- **The span of the new document that has to be looked at again after some changes.** It covers
every record that a change touches, in either document; there is none when no record is touched. -/
def impact? (before after : Document) (changes : List Change) : Option Span :=
  match before.touched? (changes.map Change.old), after.touched? (changes.map Change.new) with
  | some o, some n => some ((translateSpan changes o).cover n)
  | some o, none => some (translateSpan changes o)
  | none, n? => n?

end RobotsTxt
