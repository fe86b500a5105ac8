import RobotsTxt.Analyzer.Builtin
import RobotsTxt.Config.Read
import RobotsTxt.Dispatch
import RobotsTxt.Files
import RobotsTxt.LogLevel

/-!
# Settings

What a client may set, and the analyzers that follow from it.

* `Settings`: a log level, a configuration file and tunings that take precedence over the file's.
* `Settings.config`: the configuration that the settings stand for.
* `Settings.level?`: the log level that they name.
* `Settings.dispatcher`: the built-in analyzers under that configuration.
-/

namespace RobotsTxt

/-- What a client may set. -/
structure Settings where
  /-- Empty leaves the level as it is. -/
  logLevel : Text := []
  /-- The path of a configuration; empty when there is none. -/
  configFile : Text := []
  tunings? : Option Tunings := none
  deriving Repr, DecidableEq

/-- The name of the configuration file that is used when no other is named. -/
def defaultConfigFile : Text := utf8 ".robotsls.yaml"

/-- Why settings lead to no analyzers. -/
inductive LoadFault where
  | file (fault : FileFault)
  | config (path : Text) (fault : ConfigError)
  | analyzers (faults : List ConfigFault)
  /-- Reading the configuration breaks off, at a key that is a collection. -/
  | breakdown (key : Yaml.Collection)

/-- The wording of a fault. -/
def LoadFault.message : LoadFault → Text
  | .file fault => fault.message
  | .config path fault => path ++ utf8 ": " ++ fault.message
  | .analyzers faults => ConfigFault.report faults
  | .breakdown key => (ConfigError.incomparable key).message

/-- Whether nothing can be answered at all. -/
def LoadFault.isBreakdown : LoadFault → Bool
  | .breakdown _ => true
  | _ => false

/-- The configuration in a file. -/
def Config.load (disk : Disk) (path : Text) : Except LoadFault Config :=
  match disk.read path with
  | .error e => .error (.file e)
  | .ok text =>
    match Config.read text with
    | .error (.incomparable key) => .error (.breakdown key)
    | .error e => .error (.config path e)
    | .ok c => .ok c

/-- Tunings laid over others, entry by entry. -/
def Tunings.overlay (base top : Tunings) : Tunings := top.foldl (fun ts e => ts.set e.1 e.2) base

/-- A configuration with some tunings laid over its own. -/
def Config.overlay (c : Config) (top : Tunings) : Config :=
  if top.isEmpty then c else { tunings? := some (c.tunings.overlay top) }

namespace Settings

variable (s : Settings)

/-- The configuration that the settings stand for: that of the file, with the client's tunings laid
over it. -/
def config (disk : Disk) : Except LoadFault Config :=
  let top := s.tunings?.getD []
  if s.configFile.isEmpty then .ok (Config.overlay {} top)
  else match Config.load disk s.configFile with
    | .error e => .error e
    | .ok c => .ok (c.overlay top)

/-- The log level that the settings name, if they name one. -/
def level? : Except UnknownLevel (Option LogLevel) :=
  if s.logLevel.isEmpty then .ok none else (LogLevel.parse s.logLevel).map some

/-- The built-in analyzers under the configuration that the settings stand for. -/
def dispatcher (disk : Disk) : Except LoadFault Dispatcher :=
  match s.config disk with
  | .error e => .error e
  | .ok c =>
    match c.apply Analyzer.builtin with
    | .error faults => .error (.analyzers faults)
    | .ok analyzers => .ok ⟨analyzers⟩

end Settings

end RobotsTxt
