import RobotsTxt.Document.Basic
import RobotsTxt.Position

/-!
# Hovering

Hovering over the name of a known directive shows its description.

* `Document.hoverAt`: what is shown at an offset.
-/

namespace RobotsTxt

/-- A description in Markdown, and the range that it is about. -/
structure Hover where
  contents : Text
  range : Range
  deriving Repr, DecidableEq

/-- The name of the line at an offset, if the offset lies on it or at its end. -/
def Document.nameAt? (d : Document) (offset : Nat) : Option Token :=
  match d.lineAt? offset with
  | some l => l.name?.filter fun n => !n.missing && n.span.reaches offset
  | none => none

/-- What is shown at an offset of a document of a text. -/
def Document.hoverAt (t : Text) (d : Document) (offset : Nat) : Except SpanFault (Option Hover) :=
  match d.nameAt? offset with
  | none => .ok none
  | some name =>
    match Directive.lookup? name.value with
    | none => .ok none
    | some directive => (t.rangeOf name.span).map fun range => some ⟨directive.markdown, range⟩

end RobotsTxt
