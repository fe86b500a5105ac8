import RobotsTxt.Diagnostic
import RobotsTxt.Position

/-!
# Markers

A diagnostic as an editor shows it: with a range of positions instead of a span of bytes.

* `Marker.ofDiagnostic`, `markers`: the markers of diagnostics.
-/

namespace RobotsTxt

/-- A diagnostic at a range. -/
structure Marker where
  range : Range
  severity : Severity
  code : Text
  source : Text
  message : Text
  deriving Repr, DecidableEq

namespace Marker

/-- The marker of a diagnostic of a text. -/
def ofDiagnostic (t : Text) (d : Diagnostic) : Except SpanFault Marker :=
  (t.rangeOf d.span).map fun range =>
    { range, severity := d.severity, code := d.code, source := d.source, message := d.message }

/-- The number of a marker's severity; what has no number of its own is a hint. -/
def level (m : Marker) : Nat :=
  match m.severity with
  | .error => 1
  | .warning => 2
  | .information => 3
  | _ => 4

end Marker

/-- The markers of some diagnostics of a text. -/
def markers (t : Text) (ds : List Diagnostic) : Except SpanFault (List Marker) :=
  ds.mapM (Marker.ofDiagnostic t)

end RobotsTxt
