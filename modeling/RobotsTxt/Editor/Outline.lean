import RobotsTxt.Document.Basic
import RobotsTxt.Position

/-!
# Outlines

The outline of a document: one symbol for every record with a name, called after the user agents
that it applies to, with the directives of the record under it.

* `Document.outline`: the symbols of a document.
-/

namespace RobotsTxt

/-- A directive in an outline. -/
structure DirectiveSymbol where
  name : Text
  /-- The value of the directive; empty when it has none. -/
  detail : Text
  range : Range
  selection : Range
  deriving Repr, DecidableEq

/-- A record in an outline. -/
structure RecordSymbol where
  name : Text
  range : Range
  selection : Range
  children : List DirectiveSymbol
  deriving Repr, DecidableEq

/-- The symbol of a line with a given name. -/
def Line.symbol (t : Text) (l : Line) (name : Token) : Except SpanFault DirectiveSymbol := do
  let range ← t.rangeOf l.span
  let selection ← t.rangeOf name.span
  return { name := Directive.canonicalName name.value, detail := l.valueText, range, selection }

namespace Record

variable (r : Record)

/-- The directives of a record that have a name, with it. -/
def namedDirectives : List (Line × Token) :=
  r.directives.filterMap fun l => (l.name?.filter fun n => !n.missing).map fun n => (l, n)

/-- The user agents that a record applies to. -/
def agents : List Text :=
  r.namedDirectives.filterMap fun (l, _) =>
    if l.kind = .userAgent && !l.valueText.isEmpty then some l.valueText else none

/-- What a record is called in an outline: its user agents, or its name when it has none. -/
def title : Text :=
  match r.agents with
  | [] => r.name
  | agents => (utf8 ", ").intercalate agents

/-- The symbol of a record whose name is a given token. -/
def symbol (t : Text) (name : Token) : Except SpanFault RecordSymbol := do
  let range ← t.rangeOf r.span
  let selection ← t.rangeOf name.span
  let children ← r.namedDirectives.mapM fun (l, n) => l.symbol t n
  return { name := r.title, range, selection, children }

end Record

/-- The symbols of a document of a text, in textual order. -/
def Document.outline (t : Text) (d : Document) : Except SpanFault (List RecordSymbol) :=
  let named := d.records.filterMap fun r =>
    if r.name.isEmpty then none else r.nameToken?.map fun n => (r, n)
  named.mapM fun (r, n) => r.symbol t n

end RobotsTxt
