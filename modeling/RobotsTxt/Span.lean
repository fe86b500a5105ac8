import RobotsTxt.Text.Bytes

/-!
# Spans

A span is a half-open range of byte offsets `[start, stop)`. Spans of a document are never reversed;
a span that a caller hands in is taken as it is, and may be negative or reversed.

* `Span.checked`: a span from two offsets, refused when they are reversed.
* `Span.contains`: half-open membership.
* `Span.touches`: whether two spans share a position or an edge.
* `Span.cover`: the smallest span that contains both.
-/

namespace RobotsTxt

/-- The byte offsets from `start` up to, but not including, `stop`. -/
structure Span where
  start : Int
  stop : Int
  deriving Repr, DecidableEq, Inhabited

/-- A span whose end precedes its start. -/
structure ReversedSpan where
  start : Int
  stop : Int
  deriving Repr, DecidableEq

namespace Span

variable (s other : Span)

/-- The span between two offsets, which must not be reversed. -/
def checked (start stop : Int) : Except ReversedSpan Span :=
  if stop < start then .error ⟨start, stop⟩ else .ok ⟨start, stop⟩

/-- The empty span at an offset. -/
def empty (pos : Int) : Span := ⟨pos, pos⟩

/-- The number of offsets in a span; negative when the span is reversed. -/
def length : Int := s.stop - s.start

/-- Whether a span starts where it stops. -/
def isEmpty : Bool := s.start == s.stop

/-- Whether an offset lies in a span. The end is excluded, so an empty span contains nothing. -/
def contains (pos : Int) : Bool := s.start ≤ pos && pos < s.stop

theorem contains_iff {pos : Int} : s.contains pos ↔ s.start ≤ pos ∧ pos < s.stop := by
  simp [contains]

/-- Whether an offset lies in a span or at its end. -/
def reaches (pos : Int) : Bool := s.start ≤ pos && pos ≤ s.stop

/-- Whether two spans share a position, or one stops exactly where the other starts. -/
def touches : Bool := other.start ≤ s.stop && s.start ≤ other.stop

/-- The smallest span that contains both. -/
def cover : Span := ⟨min s.start other.start, max s.stop other.stop⟩

/-- A span as `[start, stop)`. -/
def render : Text :=
  utf8 "[" ++ Text.ofInt s.start ++ utf8 ", " ++ Text.ofInt s.stop ++ utf8 ")"

end Span

/-- The message for a reversed span. -/
def ReversedSpan.message (e : ReversedSpan) : Text :=
  utf8 "bug: invalid span " ++ Span.render ⟨e.start, e.stop⟩

end RobotsTxt
