import RobotsTxt.Text.Case
import RobotsTxt.Text.Quoted

/-!
# Log levels

* `LogLevel.parse`: the level that a word stands for, in any case.
-/

namespace RobotsTxt

/-- How important a message must be in order to be logged. -/
inductive LogLevel where
  | debug
  | info
  | warn
  | error
  deriving Repr, DecidableEq

/-- A word that stands for no level. -/
structure UnknownLevel where
  word : Text
  deriving Repr, DecidableEq

/-- The wording of an unknown level. -/
def UnknownLevel.message (e : UnknownLevel) : Text :=
  utf8 "invalid log level " ++ e.word.quote ++ utf8 " (expected debug, info, warn or error)"

namespace LogLevel

/-- The number of a level; a greater one is more important. -/
def code : LogLevel → Int
  | .debug => -4
  | .info => 0
  | .warn => 4
  | .error => 8

/-- The name of a level. -/
def name : LogLevel → Text
  | .debug => utf8 "debug"
  | .info => utf8 "info"
  | .warn => utf8 "warn"
  | .error => utf8 "error"

/-- The words that stand for a level. -/
def words : List (String × LogLevel) :=
  [("debug", .debug), ("info", .info), ("warn", .warn), ("warning", .warn), ("err", .error),
    ("error", .error)]

/-- The level that a word stands for. -/
def parse (word : Text) : Except UnknownLevel LogLevel :=
  match words.find? fun w => utf8 w.1 == word.lower with
  | some (_, level) => .ok level
  | none => .error ⟨word⟩

/-- What a level is called where a value of it is asked for. -/
def typeName : Text := utf8 "level"

end LogLevel

end RobotsTxt
