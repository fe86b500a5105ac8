import RobotsTxt.Command.Check
import RobotsTxt.Command.Format
import RobotsTxt.Command.Invocation
import RobotsTxt.Wire

/-!
# Running commands

* `CommandFault`: why a command fails.
* `runCommand`: what a command prints and why it fails.
* `Watching`: checking files again whenever they are written.
-/

namespace RobotsTxt

/-- Why a command fails. -/
inductive CommandFault where
  | usage (fault : UsageFault)
  | load (fault : LoadFault)
  | check (faults : List CheckFault)
  | format (fault : FormatFault)
  | connect (path : Text) (cause : FileCause)
  | wire (fault : WireFault)
  /-- A directory cannot be watched. -/
  | watch (cause : FileCause)

/-- The wording of a fault. -/
def CommandFault.message : CommandFault → Text
  | .usage fault => fault.message
  | .load fault => fault.message
  | .check faults => CheckFault.report faults
  | .format fault => fault.message
  | .connect path cause => utf8 "dial unix " ++ path ++ utf8 ": connect: " ++ cause.message
  | .wire fault => utf8 "server exited with error: " ++ fault.message
  | .watch cause => cause.message

/-- What a command prints, and why it fails. -/
structure CommandOutcome where
  output : Text := []
  fault? : Option CommandFault := none

/-- How the program is used. -/
def usageText : Text :=
  utf8 "robots.txt Language Server

Usage:
  robotsls check [--config FILE] [--watch] FILE...
  robotsls fmt [-w] [-l] FILE...
  robotsls serve [--pipe SOCKET] [--log-level LEVEL]
"

/-- The longest name of a socket. -/
def maxSocketName : Nat := 108

/-- Whether a name is one of a socket that is no file. -/
def isAbstractName (path : Text) : Bool := path.head?.any fun b => b == 0x40 || b == 0

section

variable {m : Type → Type} [Monad m] {Handle : Type} (access : FileAccess m Handle)

/-- Why no connection to a socket can be made: nobody listens there. The name of a file ends with a
zero byte, and one more is needed for it. -/
def connectCause (path : Text) : m FileCause := do
  let size := if isAbstractName path then path.length else path.length + 1
  if maxSocketName < size then return .invalid
  if isAbstractName path then return .refused
  match ← access.stat (path.cut 0).1 with
  | .error e => return e.cause
  | .ok _ => return .refused

/-- Checks some files. -/
def runCheck (config : Text) (paths : List Text) : m CommandOutcome := do
  match ← loadDispatcher access config with
  | .error e => return { fault? := some (.load e) }
  | .ok dispatcher =>
    let o ← checkFiles access dispatcher paths
    return {
      output := o.output
      fault? := if o.faults.isEmpty then none else some (.check o.faults) }

/-- **Runs a command**, where `converse` is the conversation with a client over the standard
streams. -/
def runCommand (converse : m (Text × Option WireFault)) : Invocation → m CommandOutcome
  | .help => return { output := usageText }
  | .check config _ files => runCheck access config files
  | .format write list files => do
    match ← formatFiles access write list files with
    | .ok output => return { output }
    | .error e => return { fault? := some (.format e) }
  | .serve pipe _ => do
    if pipe.isEmpty then
      let (output, fault?) ← converse
      return { output, fault? := fault?.map .wire }
    return { fault? := some (.connect pipe (← connectCause access pipe)) }

/-- Runs a command line. -/
def runCommandLine (converse : m (Text × Option WireFault)) (arguments : List Text) :
    m CommandOutcome :=
  match Invocation.read arguments with
  | .error e => return { fault? := some (.usage e) }
  | .ok invocation => runCommand access converse invocation

end

/-! ## Watching -/

/-- The files that are watched, and what they are checked with. -/
structure Watching where
  dispatcher : Dispatcher
  watch : Watch

section

variable {m : Type → Type} [Monad m] {Handle : Type} (access : FileAccess m Handle)

/-- The first of some directories that cannot be watched, by what is wrong with it. -/
def unwatchable? : List (List Text) → m (Option FileCause)
  | [] => return none
  | d :: ds => do
    match ← access.stat (rootedPath d) with
    | .error e => return some e.cause
    | .ok _ => unwatchable? ds

/-- Checks some files, given from a directory, and begins to watch them: what the first check
prints, and what is watched or why nothing is. -/
def startWatching (directory : List Text) (config : Text) (paths : List Text) :
    m (Text × Except CommandFault Watching) := do
  match ← loadDispatcher access config with
  | .error e => return ([], .error (.load e))
  | .ok dispatcher =>
    let o ← checkFiles access dispatcher paths
    if !o.goesOn then return (o.output, .error (.check o.faults))
    let watch := Watch.ofPaths directory paths
    match ← unwatchable? access watch.directories with
    | some cause => return (o.output, .error (.watch cause))
    | none => return (o.output, .ok { dispatcher, watch })

/-- What is printed, and what is complained about, after something was written at a place. -/
def Watching.notice (w : Watching) (place : List Text) : m (Text × Text) := do
  match w.watch.name? place with
  | none => return ([], [])
  | some path =>
    let o ← checkFiles access w.dispatcher [path]
    return (o.output, o.complaint)

end

end RobotsTxt
