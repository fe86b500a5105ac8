import RobotsTxt.Config.Basic
import RobotsTxt.Yaml.Decode

/-!
# Written configurations

A configuration is written in YAML: a mapping with the single field `analyzers`, which maps the
names of analyzers to mappings with the fields `enabled` and `severity`. What has the wrong type is
reported with its line, and everything that is wrong is reported together.

* `ConfigError`: why a text is no configuration.
* `Config.read`: the configuration of a text.
-/

namespace RobotsTxt

/-- Why a text is no configuration. -/
inductive ConfigError where
  | malformed
  | faults (faults : List Yaml.TypeFault)
  /-- A mapping into which others are merged has a collection for a key. Reading breaks off. -/
  | incomparable (key : Yaml.Collection)
  deriving Repr, DecidableEq

/-- The report of a text that is no configuration. The details of malformed YAML are left out. -/
def ConfigError.message : ConfigError → Text
  | .malformed => utf8 "yaml:"
  | .faults fs =>
    utf8 "yaml: unmarshal errors:" ++ fs.flatMap fun f => utf8 "\n  " ++ f.message
  | .incomparable key => utf8 "runtime error: hash of unhashable type " ++ utf8 key.name

namespace Config

open Yaml

/-- The reader of a field of a tuning. -/
def tuningField? (name : Text) : Option (Tuning → Yaml.Node → Decode Tuning) :=
  if name == utf8 "enabled" then
    some fun t n => do return { t with enabled? := (← readTruth n).getD t.enabled? }
  else if name == utf8 "severity" then
    some fun t n => do return { t with severity := (← readText n).getD t.severity }
  else none

/-- Reads the tuning of an analyzer. -/
def readTuning : (fuel : Nat) → Tuning → Yaml.Node → Decode (Option Tuning)
  | 0, _, _ => Yaml.malformed
  | fuel + 1, t, n => visit n fun n => do
    let type := "diagnostics.AnalyzerConfig"
    match n with
    | .mapping _ _ entries =>
      let again (t : Tuning) (n : Yaml.Node) : Decode Tuning := do
        return (← readTuning fuel t n).getD t
      distinctly entries (some <$> readRecord type tuningField? (readAny fuel) again entries t)
    | n => refuseOther type none n

/-- Reads the tunings of all analyzers. A null in place of the table takes it away, and a null in
place of a tuning stands for one that changes nothing, unless there is another already. -/
def readTunings : (fuel : Nat) → Option Tunings → Yaml.Node → Decode (Option (Option Tunings))
  | 0, _, _ => Yaml.malformed
  | fuel + 1, before?, n => visit n fun n => do
    match n with
    | .mapping _ _ entries =>
      let entry (ts : Tunings) (_ : Yaml.Node) (name : Text) (value : Yaml.Node) :
          Decode Tunings := do
        match ← readTuning fuel {} value with
        | some t => return ts.set name t
        | none =>
          let isNull := (← target value).tag == nullTag
          let isFirst := before?.isNone || (ts.lookup name).isNone
          return if isNull && isFirst then ts.set name {} else ts
      let again (ts : Tunings) (n : Yaml.Node) : Decode Tunings := do
        return ((← readTunings fuel (some ts) n).getD (some ts)).getD ts
      distinctly entries do
        let (ts, source?) ← readOwn readText .text entry entries (before?.getD [])
        return some (some (← readMerged (readAny fuel) again entries source? ts))
    | n => refuseOther "map[string]diagnostics.AnalyzerConfig" (some none) n

/-- The reader of a field of a configuration. -/
def field? (fuel : Nat) (name : Text) : Option (Config → Yaml.Node → Decode Config) :=
  if name == utf8 "analyzers" then
    some fun c n => do return ⟨(← readTunings fuel c.tunings? n).getD c.tunings?⟩
  else none

/-- Reads a configuration. -/
def readNode : (fuel : Nat) → Config → Yaml.Node → Decode (Option Config)
  | 0, _, _ => Yaml.malformed
  | fuel + 1, c, n => visit n fun n => do
    let type := "diagnostics.Config"
    match n with
    | .mapping _ _ entries =>
      let again (c : Config) (n : Yaml.Node) : Decode Config := do
        return (← readNode fuel c n).getD c
      distinctly entries (some <$> readRecord type (field? fuel) (readAny fuel) again entries c)
    | n => refuseOther type none n

/-- **The configuration of a text.** A text without a document configures nothing. -/
def read (t : Text) : Except ConfigError Config :=
  match readDocument? t with
  | none => .error .malformed
  | some none => .ok {}
  | some (some d) =>
    match d.decode fun fuel => readNode fuel {} with
    | .error .malformed => .error .malformed
    | .error (.incomparable key) => .error (.incomparable key)
    | .ok (c?, []) => .ok (c?.getD {})
    | .ok (_, faults) => .error (.faults faults)

end Config

end RobotsTxt
