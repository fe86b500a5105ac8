import RobotsTxt.Json.Basic
import RobotsTxt.Settings.Basic

/-!
# Settings from a client

A client sends its settings as a JSON value, at the top level or nested under the server's own
section. Unknown fields are ignored and `null` counts as absent. Everything of a wrong type is
reported at once.

* `Settings.ofJson`: the settings in a value.
* `SettingsError`: what is wrong with a value, and `SettingsError.message`, the report of it.
-/

namespace RobotsTxt

/-! ## Values in messages -/

namespace Json

/-- What kind of value stands where a map is expected. -/
def kindName : Json → Text
  | .null => utf8 "invalid"
  | .bool _ => utf8 "bool"
  | .number _ => utf8 "float64"
  | .string _ => utf8 "string"
  | .array _ => utf8 "slice"
  | .object _ => utf8 "map"

/-- The type of a value that stands where another is expected. -/
def typeName : Json → Text
  | .null => utf8 "<nil>"
  | .bool _ => utf8 "bool"
  | .number _ => utf8 "float64"
  | .string _ => utf8 "string"
  | .array _ => utf8 "[]interface \x7b\x7d"
  | .object _ => utf8 "map[string]interface \x7b\x7d"

mutual

/-- A value as it is shown in a message. -/
def shown : Json → Text
  | .null => utf8 "<nil>"
  | .bool b => utf8 (if b then "true" else "false")
  | .number n => n.written
  | .string t => t
  | .array items => utf8 "[" ++ [0x20].intercalate (shownItems items) ++ utf8 "]"
  | .object fields =>
    let sorted := (shownFields fields).mergeSort fun a b => a.1.le b.1
    utf8 "map[" ++ [0x20].intercalate (sorted.map fun f => f.1 ++ utf8 ":" ++ f.2) ++ utf8 "]"

/-- The items of an array as they are shown. -/
def shownItems : List Json → List Text
  | [] => []
  | j :: js => j.shown :: shownItems js

/-- The names of an object and its values as they are shown. -/
def shownFields : List (Text × Json) → List (Text × Text)
  | [] => []
  | (name, j) :: fs => (name, j.shown) :: shownFields fs

end

end Json

/-! ## Faults -/

/-- A value of a wrong type, and the path that leads to it. -/
inductive SettingsFault where
  | notAMap (path : Text) (value : Json)
  | wrongType (path : Text) (expected : String) (value : Json)

/-- The wording of a fault. -/
def SettingsFault.message : SettingsFault → Text
  | .notAMap path value =>
    utf8 "'" ++ path ++ utf8 "' expected a map, got '" ++ value.kindName ++ utf8 "'"
  | .wrongType path expected value =>
    utf8 "'" ++ path ++ utf8 "' expected type '" ++ utf8 expected ++
      utf8 "', got unconvertible type '" ++ value.typeName ++ utf8 "', value: '" ++ value.shown ++
      utf8 "'"

/-- What is wrong with a value that should hold settings. -/
inductive SettingsError where
  /-- The value as a whole is no map. -/
  | value (fault : SettingsFault)
  /-- Some of its fields are of a wrong type. -/
  | fields (faults : List SettingsFault)

/-- The report of what is wrong, with the faults in the order of their wording. -/
def SettingsError.message : SettingsError → Text
  | .value fault => utf8 "invalid settings: " ++ fault.message
  | .fields faults =>
    let points := (faults.map fun f => utf8 "* " ++ f.message).mergeSort Text.le
    utf8 "invalid settings: " ++ Text.ofNat points.length ++ utf8 " error(s) decoding:\n\n" ++
      [0x0A].intercalate points

/-! ## Decoding -/

/-- A decoded value and what is wrong with its source. -/
abbrev Decoded (α : Type) := α × List SettingsFault

/-- The text in a field; empty when there is none. -/
def decodeText (path : Text) : Option Json → Decoded Text
  | none | some .null => ([], [])
  | some (.string t) => (t, [])
  | some v => ([], [.wrongType path "string" v])

/-- The truth value in a field. -/
def decodeTruth (path : Text) : Option Json → Decoded (Option Bool)
  | none | some .null => (none, [])
  | some (.bool b) => (some b, [])
  | some v => (none, [.wrongType path "bool" v])

/-- The tuning in a value. -/
def decodeTuning (path : Text) : Json → Decoded Tuning
  | .null => ({}, [])
  | j@(.object _) =>
    match decodeTruth (path ++ utf8 ".enabled") (j.field? "enabled"),
      decodeText (path ++ utf8 ".severity") (j.field? "severity") with
    | (enabled?, es), (severity, fs) => ({ enabled?, severity }, es ++ fs)
  | v => ({}, [.notAMap path v])

/-- The tunings in the fields of an object. -/
def decodeEntries (path : Text) : List (Text × Json) → Decoded Tunings
  | [] => ([], [])
  | (name, v) :: rest =>
    match decodeTuning (path ++ utf8 "[" ++ name ++ utf8 "]") v, decodeEntries path rest with
    | (t, es), (ts, fs) => ((name, t) :: ts, es ++ fs)

/-- The tunings in a field; an empty table differs from none. -/
def decodeTunings (path : Text) : Option Json → Decoded (Option Tunings)
  | none | some .null => (none, [])
  | some (.object fields) =>
    match decodeEntries path fields with
    | (ts, fs) => (some ts, fs)
  | some v => (none, [.notAMap path v])

/-- The section under which a client may nest the settings. -/
def settingsSection : Text := utf8 "robotsls"

/-- The value that holds the settings: the section of that name, if there is one. -/
def Json.settingsValue : Json → Json
  | .object fields => (fields.lookup settingsSection).getD (.object fields)
  | j => j

namespace Settings

/-- The settings in a value. -/
def decode : Json → Except SettingsError Settings
  | .null => .ok {}
  | j@(.object _) =>
    match decodeText (utf8 "logLevel") (j.field? "logLevel"),
      decodeText (utf8 "configFile") (j.field? "configFile"),
      decodeTunings (utf8 "analyzers") (j.field? "analyzers") with
    | (logLevel, es), (configFile, fs), (tunings?, gs) =>
      match es ++ fs ++ gs with
      | [] => .ok { logLevel, configFile, tunings? }
      | faults => .error (.fields faults)
  | v => .error (.value (.notAMap [] v))

/-- **The settings that a client has sent.** No value stands for no settings. -/
def ofJson : Option Json → Except SettingsError Settings
  | none => .ok {}
  | some j => decode j.settingsValue

end Settings

end RobotsTxt
