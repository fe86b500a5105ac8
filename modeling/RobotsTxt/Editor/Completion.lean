import RobotsTxt.Document.Basic
import RobotsTxt.Position

/-!
# Completion

On a blank line, and on the name of a directive, the names of known directives are offered.

* `Document.completionSite?`: where a name could go at an offset, and how it has to start.
* `Document.completionsAt`: the names that are offered there.
-/

namespace RobotsTxt

/-- A place where the name of a directive can go. -/
structure CompletionSite where
  /-- What the name replaces. -/
  span : Span
  /-- How the name has to start, in lower case. -/
  start : Text := []
  /-- Whether a delimiter has to follow the name. -/
  delimited : Bool := true
  deriving Repr, DecidableEq

/-- A name that is offered. -/
structure CompletionItem where
  directive : Directive
  /-- The place of the directive among the known ones. -/
  rank : Nat
  range : Range
  newText : Text
  deriving Repr, DecidableEq

namespace CompletionItem

/-- What kind of directive is offered. -/
def detail (i : CompletionItem) : Text :=
  utf8 (if i.directive.nonStandard then "non-standard directive" else "directive")

/-- The rank in two digits, by which editors sort. -/
def sortText (i : CompletionItem) : Text :=
  let digits := Text.ofNat i.rank
  if digits.length < 2 then 0x30 :: digits else digits

end CompletionItem

/-- The items that fit a place, where `range` is the range of its span. -/
def CompletionSite.items (site : CompletionSite) (range : Range) : List CompletionItem :=
  Directive.known.zipIdx.filterMap fun (directive, rank) =>
    if site.start.isPrefixOf directive.name.lower then
      some { directive, rank, range
             newText := directive.name ++ if site.delimited then utf8 ": " else [] }
    else none

namespace Document

variable (t : Text) (d : Document)

/-- The place for a name at an offset of a document of a text. On a line with something else than a
missing name at the offset there is none. -/
def completionSite? (offset : Nat) : Option CompletionSite :=
  match d.lineAt? offset with
  | none => some { span := .empty offset }
  | some l =>
    match l.name? with
    | none => none
    | some name =>
      let delimited := l.delimiter?.all Token.missing
      if l.kind = .commentLine then none
      else if name.missing then some { span := .empty offset, delimited }
      else if !name.span.reaches offset then none
      else
        let start := (t.slice name.span.start.toNat offset).lower
        some { span := name.span, start, delimited }

/-- The names that are offered at an offset of a document of a text. -/
def completionsAt (offset : Nat) : Except SpanFault (List CompletionItem) :=
  match d.completionSite? t offset with
  | none => .ok []
  | some site => (t.rangeOf site.span).map site.items

end Document

end RobotsTxt
