import RobotsTxt.Document.Basic

/-!
# Records of one name

A caret on the name of a record highlights the names of all records with the same name, up to case
folding.

* `Document.recordAt?`: the record whose name is under the caret.
* `Document.highlightsAt`: the spans of all names equal to it.
-/

namespace RobotsTxt

/-- Whether an offset lies on the name of a record. -/
def Record.namedAt (pos : Int) (r : Record) : Bool :=
  !r.name.isEmpty && r.nameToken?.any fun t => t.span.contains pos

namespace Document

variable (d : Document)

/-- The record whose name is under the caret. -/
def recordAt? (caret : Int) : Option Record := d.records.find? (Record.namedAt caret)

/-- The spans of the names that a document's records share with a given name. -/
def namesLike (name : Text) : List Span :=
  d.records.filterMap fun r =>
    if !r.name.isEmpty && r.name.eqFold name then r.nameToken?.map Token.span else none

/-- The spans of all names equal to the one under the caret, that one included; none when the caret
is not on a name. -/
def highlightsAt (caret : Int) : List Span :=
  match d.recordAt? caret with
  | some r => d.namesLike r.name
  | none => []

end Document

end RobotsTxt
