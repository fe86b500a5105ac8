import RobotsTxt.Diagnostic
import RobotsTxt.Document.Basic

/-!
# Analyzers

An analyzer looks at single nodes and makes remarks on them. It declares the kinds of nodes that it
can look at, and is also shown the nodes of every kind that derives from one of these.

* `Outcome`: how an analyzer's look at one node ends.
* `Analyzer`: a name, the declared kinds and the look itself.
* `Analyzer.handles`: whether an analyzer is shown nodes of a kind.
-/

namespace RobotsTxt

/-- How an analyzer's look at one node ends. -/
inductive Outcome where
  | reported (diagnostics : List Diagnostic)
  /-- The analyzer gave up with an error; what it found until then does not count. -/
  | failed (found : List Diagnostic) (error : Text)
  /-- The analyzer broke down. -/
  | broken (error : Text)
  deriving Repr, DecidableEq

namespace Outcome

/-- The same outcome with every diagnostic changed. -/
def map (f : Diagnostic → Diagnostic) : Outcome → Outcome
  | .reported ds => .reported (ds.map f)
  | .failed ds e => .failed (ds.map f) e
  | .broken e => .broken e

end Outcome

/-- An analyzer of nodes. -/
structure Analyzer where
  /-- Identifies the analyzer in a configuration and in its diagnostics. -/
  name : Text
  kinds : List Kind
  look : Node → Outcome

namespace Analyzer

/-- Whether an analyzer is shown nodes of a kind. -/
def handles (a : Analyzer) (k : Kind) : Bool := a.kinds.any k.derives

/-- The analyzer whose diagnostics all have a given severity. -/
def withSeverity (severity : Severity) (a : Analyzer) : Analyzer :=
  { a with look := fun n => (a.look n).map fun d => { d with severity } }

end Analyzer

end RobotsTxt
