import RobotsTxt.Severity
import RobotsTxt.Span

/-!
# Diagnostics

A remark on a span of a document.
-/

namespace RobotsTxt

/-- A remark on a span of a document. -/
structure Diagnostic where
  span : Span
  severity : Severity
  message : Text
  /-- The analyzer that made the remark. -/
  code : Text := []
  /-- The program that made the remark. -/
  source : Text := []
  deriving Repr, DecidableEq

namespace Diagnostic

/-- The source of every diagnostic that names none. -/
def defaultSource : Text := utf8 "robotsls"

/-- A diagnostic on one line. -/
def render (d : Diagnostic) : Text :=
  d.span.render ++ utf8 " " ++ d.severity.label ++ utf8 ": " ++ d.message ++ utf8 " [" ++ d.code ++
    utf8 "]"

/-- A diagnostic with an empty code and an empty source filled in. -/
def attributed (name : Text) (d : Diagnostic) : Diagnostic :=
  { d with
    code := if d.code.isEmpty then name else d.code
    source := if d.source.isEmpty then defaultSource else d.source }

end Diagnostic

end RobotsTxt
