import RobotsTxt.Analyzer.Basic

/-!
# Dispatch

Every node that touches a range is shown to the analyzers that handle its kind. An analyzer that
fails on a node is noted and contributes nothing there; it never keeps another one from being run.

* `Dispatcher`: the analyzers in the order in which they are run.
* `Dispatcher.calls`: who is shown what, in order.
* `Dispatcher.analyze`: the diagnostics of a range.
* `Dispatcher.failures`: the failures of a range.
-/

namespace RobotsTxt

/-- Analyzers in the order in which they are run. -/
structure Dispatcher where
  analyzers : List Analyzer

/-- An analyzer that failed on a node. -/
structure Failure where
  analyzer : Text
  kind : Kind
  span : Span
  error : Text
  deriving Repr, DecidableEq

/-- One analyzer, shown one node. -/
structure Call where
  analyzer : Analyzer
  node : Node

namespace Call

variable (c : Call)

/-- How the call ends. -/
def outcome : Outcome := c.analyzer.look c.node

/-- The diagnostics of a call: none when it fails. -/
def diagnostics : List Diagnostic :=
  match c.outcome with
  | .reported ds => ds.map (Diagnostic.attributed c.analyzer.name)
  | .failed _ _ => []
  | .broken _ => []

/-- The failure of a call. -/
def failure? : Option Failure :=
  let failure (error : Text) : Failure := ⟨c.analyzer.name, c.node.kind, c.node.span, error⟩
  match c.outcome with
  | .reported _ => none
  | .failed _ e => some (failure e)
  | .broken e => some (failure (utf8 "panic: " ++ e))

end Call

namespace Dispatcher

variable (d : Dispatcher)

/-- The analyzers that handle a kind. -/
def analyzersFor (k : Kind) : List Analyzer := d.analyzers.filter fun a => a.handles k

/-- The nodes of a document that touch a range, in depth-first pre-order. A node that does not touch
the range is left out together with everything below it. -/
def touchedNodes (doc : Document) (range : Span) : List Node :=
  ((Node.document doc).walk fun n => n.span.touches range).filter fun n => n.span.touches range

/-- Who is shown what, in order. -/
def calls (doc : Document) (range : Span) : List Call :=
  (touchedNodes doc range).flatMap fun n => (d.analyzersFor n.kind).map fun a => ⟨a, n⟩

/-- **The diagnostics of the nodes that touch a range.** -/
def analyze (doc : Document) (range : Span) : List Diagnostic :=
  (d.calls doc range).flatMap Call.diagnostics

/-- The failures on the nodes that touch a range. -/
def failures (doc : Document) (range : Span) : List Failure :=
  (d.calls doc range).filterMap Call.failure?

end Dispatcher

end RobotsTxt
