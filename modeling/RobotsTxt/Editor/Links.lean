import RobotsTxt.Document.Basic
import RobotsTxt.Position
import RobotsTxt.Url

/-!
# Links

Every sitemap with an absolute address of the Web is a link.

* `Document.links`: the links of a document.
-/

namespace RobotsTxt

/-- A range that leads to an address. -/
structure Link where
  range : Range
  target : Text
  deriving Repr, DecidableEq

/-- The token of a line that is a link, if there is one. -/
def Line.linkToken? (l : Line) : Option Token :=
  if l.kind = .sitemap && !l.valueText.isEmpty && Url.isWebText l.valueText then l.value? else none

/-- The links of a document of a text, in textual order. -/
def Document.links (t : Text) (d : Document) : Except SpanFault (List Link) :=
  (d.lines.filterMap Line.linkToken?).mapM fun v =>
    (t.rangeOf v.span).map fun range => ⟨range, v.value⟩

end RobotsTxt
