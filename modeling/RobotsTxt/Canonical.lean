import RobotsTxt.Document.Grammar
import RobotsTxt.Text.Space

/-!
# Canonical text

The canonical text of a document: known names in their canonical spelling, directives as `Name:
value`, comments after `# `, one blank line between records, no indentation, no blanks at the end of
a line, and a line feed after every line. A line with a missing name or delimiter is kept as it was
written, so that nothing is lost.

* `canonicalComment`, `Line.canonical`: a comment and a line.
* `Tree.canonical`: the canonical text of a document.
* `canonicalText`: the canonical text of a text.
-/

namespace RobotsTxt

/-- The body of a comment: what follows the first `#`, without white space around it. -/
def commentBody (comment : Text) : Text :=
  match comment with
  | 0x23 :: body => Text.trimSpace body
  | body => Text.trimSpace body

/-- A comment in canonical form. -/
def canonicalComment (comment : Text) : Text :=
  match commentBody comment with
  | [] => utf8 "#"
  | body => utf8 "# " ++ body

/-- A text with a space in front of it, unless it is empty. -/
def spaced : Text → Text
  | [] => []
  | t => 0x20 :: t

namespace Line

/-- A line in canonical form, where `source` is the text that its span refers to. -/
def canonical (source : Text) (l : Line) : Text :=
  let raw := source.slice l.span.start.toNat l.span.stop.toNat
  let comment := (l.comment?.map fun c => canonicalComment c.value).getD []
  if l.isDirective then
    match l.name?, l.delimiter? with
    | some name, some delimiter =>
      if name.missing || delimiter.missing then raw
      else Directive.canonicalName name.value ++ [0x3A] ++ spaced l.valueText ++ spaced comment
    | _, _ => raw
  else comment

end Line

/-- The lines of a record in canonical form, each with a line feed after it. -/
def Record.canonical (source : Text) (r : Record) : Text :=
  r.lines.flatMap fun l => l.canonical source ++ [0x0A]

/-- The canonical text of a document. -/
def Tree.canonical (t : Tree) : Text :=
  t.root.leading.flatMap Token.value ++
    [0x0A].intercalate (t.root.records.map (Record.canonical t.snapshot.text))

/-- The canonical text of a text. -/
def canonicalText (t : Text) : Text := (Tree.parse ⟨0, t⟩).canonical

end RobotsTxt
