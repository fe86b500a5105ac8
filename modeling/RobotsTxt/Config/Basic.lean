import RobotsTxt.Analyzer.Basic
import RobotsTxt.Text.Space

/-!
# Configurations

A configuration switches analyzers off and changes the severity of what they report.

* `Tuning`: what is configured for one analyzer.
* `Config`: the tunings by name; no table at all differs from an empty one only where it is shown.
* `Config.apply`: the analyzers as configured, or everything that is wrong with the configuration.
-/

namespace RobotsTxt

/-- What is configured for one analyzer. -/
structure Tuning where
  /-- None leaves the analyzer on. -/
  enabled? : Option Bool := none
  /-- A blank text leaves the severities as they are. -/
  severity : Text := []
  deriving Repr, DecidableEq

/-- Whether an analyzer stays on. -/
def Tuning.enabled (t : Tuning) : Bool := t.enabled?.getD true

/-- Tunings by the name of their analyzer. Every name stands once. -/
abbrev Tunings := List (Text × Tuning)

/-- The tunings with one set, which takes the place of an earlier one of the same name. -/
def Tunings.set (ts : Tunings) (name : Text) (t : Tuning) : Tunings :=
  if ts.any fun e => e.1 == name then ts.map fun e => if e.1 == name then (name, t) else e
  else ts ++ [(name, t)]

/-- A configuration of analyzers. -/
structure Config where
  tunings? : Option Tunings := none
  deriving Repr, DecidableEq

/-- What is wrong with a configuration. -/
inductive ConfigFault where
  | unknownAnalyzer (name : Text)
  | badSeverity (analyzer : Text) (cause : UnknownSeverity)
  deriving Repr, DecidableEq

/-- The wording of a fault. -/
def ConfigFault.message : ConfigFault → Text
  | .unknownAnalyzer name => utf8 "unknown analyzer " ++ name.quote
  | .badSeverity analyzer cause => utf8 "analyzer " ++ analyzer.quote ++ utf8 ": " ++ cause.message

/-- The report of several faults, one on each line. -/
def ConfigFault.report (faults : List ConfigFault) : Text :=
  [0x0A].intercalate (faults.map ConfigFault.message)

namespace Config

variable (c : Config)

/-- The tunings of a configuration. -/
def tunings : Tunings := c.tunings?.getD []

/-- The tuning of an analyzer. -/
def tuning? (name : Text) : Option Tuning := c.tunings.lookup name

/-- The configured names that no analyzer has, in the order of their quoted forms. -/
def unknownNames (analyzers : List Analyzer) : List Text :=
  ((c.tunings.map Prod.fst).filter fun n => !analyzers.any fun a => a.name == n).mergeSort
    fun m n => m.quote.le n.quote

/-- An analyzer as configured: none when it is switched off. -/
def tune (a : Analyzer) : Except ConfigFault (Option Analyzer) :=
  match c.tuning? a.name with
  | none => .ok (some a)
  | some t =>
    if !t.enabled then .ok none
    else if t.severity.trimSpace.isEmpty then .ok (some a)
    else match Severity.parse t.severity with
      | .ok s => .ok (some (a.withSeverity s))
      | .error e => .error (.badSeverity a.name e)

/-- What is wrong with a configuration of some analyzers: names of no analyzer first, then bad
severities in the order of the analyzers. -/
def faults (analyzers : List Analyzer) : List ConfigFault :=
  (c.unknownNames analyzers).map .unknownAnalyzer ++
    analyzers.filterMap fun a =>
      match c.tune a with
      | .error e => some e
      | .ok _ => none

/-- **The analyzers as configured.** Every configured name must be that of an analyzer, and every
severity that counts must be known. -/
def apply (analyzers : List Analyzer) : Except (List ConfigFault) (List Analyzer) :=
  match c.faults analyzers with
  | [] => .ok (analyzers.filterMap fun a => (c.tune a).toOption.bind id)
  | faults => .error faults

end Config

end RobotsTxt
