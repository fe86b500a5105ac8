import RobotsTxt.Text.Case
import RobotsTxt.Text.Quoted

/-!
# Severities

How serious a diagnostic is.

* `Severity.parse`: the severity that a word names, up to lower case.
* `Severity.label`: the short name.
-/

namespace RobotsTxt

/-- How serious a diagnostic is. A code without a meaning is kept as `unassigned`. -/
inductive Severity where
  | error
  | warning
  | information
  | hint
  | unassigned (code : UInt8)
  deriving Repr, DecidableEq

/-- A word that names no severity. -/
structure UnknownSeverity where
  word : Text
  deriving Repr, DecidableEq

/-- The message for a word that names no severity. -/
def UnknownSeverity.message (e : UnknownSeverity) : Text :=
  utf8 "unknown severity " ++ e.word.quote

namespace Severity

/-- The severity with a given code. -/
def ofCode (code : UInt8) : Severity :=
  match code.toNat with
  | 1 => .error
  | 2 => .warning
  | 3 => .information
  | 4 => .hint
  | _ => .unassigned code

/-- The code of a severity. -/
def code : Severity → Nat
  | .error => 1
  | .warning => 2
  | .information => 3
  | .hint => 4
  | .unassigned code => code.toNat

/-- The short name of a severity. -/
def label : Severity → Text
  | .error => utf8 "error"
  | .warning => utf8 "warning"
  | .information => utf8 "info"
  | .hint => utf8 "hint"
  | .unassigned code => utf8 "Severity(" ++ Text.ofNat code.toNat ++ utf8 ")"

/-- The words that name a severity. -/
def words : List (String × Severity) :=
  [("error", .error), ("err", .error), ("warning", .warning), ("warn", .warning),
    ("information", .information), ("info", .information), ("hint", .hint)]

/-- The severity that a word names, up to lower case. -/
def parse (word : Text) : Except UnknownSeverity Severity :=
  match words.find? fun w => utf8 w.1 == word.lower with
  | some (_, s) => .ok s
  | none => .error ⟨word⟩

end Severity

end RobotsTxt
