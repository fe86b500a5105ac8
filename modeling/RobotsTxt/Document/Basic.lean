import RobotsTxt.Directive
import RobotsTxt.Token

/-!
# Documents

A document is a list of records, a record a list of consecutive non-blank lines, and a line up to
four tokens.

* `Line`, `Record`, `Document`: the three layers.
* `Node`: any of them, with its kind, its span, its children and the tokens that it owns itself.
* `Node.walk`: the nodes in depth-first pre-order, without the children of nodes that a test
  refuses.
* `Document.lineAt?`: the line under a caret.
-/

namespace RobotsTxt

/-- A single line. Its span leaves out the indentation, the blanks at its end and the line break. -/
structure Line where
  kind : Kind
  span : Span
  name? : Option Token := none
  delimiter? : Option Token := none
  /-- Absent when a delimiter is there and nothing follows it. -/
  value? : Option Token := none
  comment? : Option Token := none
  deriving Repr, DecidableEq

namespace Line

variable (l : Line)

/-- The tokens of a line, in textual order. -/
def tokens : List Token := [l.name?, l.delimiter?, l.value?, l.comment?].reduceOption

/-- The value of a line; empty when there is none. -/
def valueText : Text :=
  match l.value? with
  | some v => if v.missing then [] else v.value
  | none => []

/-- The name of a line in lower case; empty when there is none. -/
def directiveName : Text := (l.name?.map fun n => n.value.lower).getD []

/-- Whether a line holds more than a comment. -/
def isDirective : Bool := l.kind != .commentLine

end Line

/-- A group of consecutive non-blank lines. -/
structure Record where
  /-- The name of the first line that holds more than a comment; a missing token at the start of the
  record when there is no such line. -/
  nameToken? : Option Token
  lines : List Line
  span : Span
  deriving Repr, DecidableEq

namespace Record

variable (r : Record)

/-- The name of a record; empty when it has none. -/
def name : Text :=
  match r.nameToken? with
  | some t => if t.missing then [] else t.value
  | none => []

/-- The lines of a record that hold more than a comment. -/
def directives : List Line := r.lines.filter Line.isDirective

end Record

/-- A whole document. -/
structure Document where
  /-- The tokens that precede all records and belong to no line, such as a byte order mark. -/
  leading : List Token
  records : List Record
  span : Span
  deriving Repr, DecidableEq

/-- A version of a document's text. -/
structure Snapshot where
  version : Int
  text : Text
  deriving Repr, DecidableEq

/-- A document together with the text it was read from. -/
structure Tree where
  root : Document
  snapshot : Snapshot
  deriving Repr, DecidableEq

/-- An element of a document. -/
inductive Node where
  | document (d : Document)
  | record (r : Record)
  | line (l : Line)
  deriving Repr, DecidableEq

namespace Node

/-- The kind of a node. -/
def kind : Node → Kind
  | .document _ => .document
  | .record _ => .record
  | .line l => l.kind

/-- The span of a node. -/
def span : Node → Span
  | .document d => d.span
  | .record r => r.span
  | .line l => l.span

/-- The nodes directly under a node, in textual order. -/
def children : Node → List Node
  | .document d => d.records.map .record
  | .record r => r.lines.map .line
  | .line _ => []

/-- The tokens that a node owns itself, in textual order. -/
def tokens : Node → List Token
  | .document d => d.leading
  | .record _ => []
  | .line l => l.tokens

/-- The nodes below a record, itself included, where `enter` decides whether to look below a node.
-/
def walkRecord (enter : Node → Bool) (r : Record) : List Node :=
  .record r :: if enter (.record r) then r.lines.map .line else []

/-- The nodes below a node, itself included, in depth-first pre-order, where `enter` decides whether
to look below a node. -/
def walk (enter : Node → Bool) : Node → List Node
  | .document d =>
    .document d :: if enter (.document d) then d.records.flatMap (walkRecord enter) else []
  | .record r => walkRecord enter r
  | .line l => [.line l]

/-- A node and everything below it, in depth-first pre-order. -/
def descendants (n : Node) : List Node := n.walk fun _ => true

/-- Every token at or below a node, in textual order. -/
def allTokens (n : Node) : List Token := n.descendants.flatMap tokens

end Node

namespace Document

variable (d : Document)

/-- Every line of a document. -/
def lines : List Line := d.records.flatMap Record.lines

/-- Every token of a document, in textual order. -/
def allTokens : List Token := (Node.document d).allTokens

/-- The line that contains an offset or ends at it. A blank line belongs to no record, so there is
none at its offsets. -/
def lineAt? (pos : Int) : Option Line :=
  d.records.findSome? fun r =>
    if r.span.reaches pos then r.lines.find? fun l => l.span.reaches pos else none

end Document

end RobotsTxt
