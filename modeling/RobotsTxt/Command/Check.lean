import RobotsTxt.Document.Grammar
import RobotsTxt.Overwrite
import RobotsTxt.Position
import RobotsTxt.Settings.Basic

/-!
# Checking files

* `CheckReport.ofText`: what is said about the text of a file.
* `checkFiles`: what is said about some files, in the order in which they are given.
* `loadDispatcher`: the analyzers under a configuration file.
* `Watch`: which of the files have to be checked again after something has happened.
-/

namespace RobotsTxt

/-- What is said about a file: one line for each diagnostic, and how many of them are errors. -/
structure CheckReport where
  lines : List Text := []
  errors : Nat := 0
  deriving Repr, DecidableEq

/-- What has gone wrong while files were checked. -/
inductive CheckFault where
  | file (fault : FileFault)
  /-- Some diagnostic is an error. -/
  | problems
  deriving Repr, DecidableEq

/-- The wording of a fault. -/
def CheckFault.message : CheckFault → Text
  | .file fault => fault.message
  | .problems => utf8 "one or more errors occurred"

/-- The wording of several faults, one on each line. -/
def CheckFault.report (faults : List CheckFault) : Text :=
  [0x0A].intercalate (faults.map CheckFault.message)

namespace CheckReport

/-- The line for a diagnostic. Lines and columns count from one, and columns count bytes. -/
def line (path text : Text) (d : Diagnostic) : Text :=
  let offset := d.span.start.toNat
  path ++ utf8 ":" ++ Text.ofNat ((text.positionAt offset).line + 1) ++ utf8 ":" ++
    Text.ofNat (text.byteColumnAt offset + 1) ++ utf8 ": " ++ d.severity.label ++ utf8 ": " ++
    d.message ++ utf8 " [" ++ d.code ++ utf8 "]"

/-- What is said about the text of a file. -/
def ofText (dispatcher : Dispatcher) (path text : Text) : CheckReport :=
  let d := Document.parse text
  let ds := dispatcher.analyze d d.span
  { lines := ds.map (line path text), errors := ds.countP fun d => d.severity == .error }

end CheckReport

/-- What a check prints, and what has gone wrong. -/
structure CheckOutcome where
  output : Text := []
  faults : List CheckFault := []
  deriving Repr, DecidableEq

/-- What is said about some files together. -/
def CheckOutcome.ofReports (reports : List (Except FileFault CheckReport)) : CheckOutcome :=
  let read := reports.filterMap Except.toOption
  let unread := reports.filterMap fun r =>
    match r with
    | .error e => some (.file e)
    | .ok _ => none
  { output := (read.flatMap CheckReport.lines).flatMap fun l => l ++ [0x0A]
    faults := unread ++ if read.all (·.errors == 0) then [] else [.problems] }

section

variable {m : Type → Type} [Monad m] {Handle : Type} (access : FileAccess m Handle)

/-- What is said about a file. -/
def checkFile (dispatcher : Dispatcher) (path : Text) : m (Except FileFault CheckReport) := do
  return (← access.read path).map (CheckReport.ofText dispatcher path)

/-- **What is said about some files.** -/
def checkFiles (dispatcher : Dispatcher) (paths : List Text) : m CheckOutcome := do
  return .ofReports (← paths.mapM (checkFile access dispatcher))

/-- The configuration file to use when one is named, or none. -/
def chooseConfig (named : Text) : m Text := do
  if !named.isEmpty then return named
  match ← access.stat defaultConfigFile with
  | .ok _ => return defaultConfigFile
  | .error _ => return []

/-- The analyzers under a configuration file, or under the default one if there is one. -/
def loadDispatcher (named : Text) : m (Except LoadFault Dispatcher) := do
  let path ← chooseConfig access named
  let content ← if path.isEmpty then pure (.ok []) else access.read path
  let disk : Disk := { read := fun _ => content, stat := fun _ => content.map List.length }
  return ({ configFile := path } : Settings).dispatcher disk

end

/-! ## Watching -/

/-- The files that are watched: where they stand, and under which name they were given. -/
structure Watch where
  tracked : List (List Text × Text)
  deriving Repr, DecidableEq

namespace Watch

/-- Watches some files, given from a directory. Of two names for one file the later counts. -/
def ofPaths (directory : List Text) (paths : List Text) : Watch :=
  ⟨(paths.map fun p => (absolute directory p, p)).reverse⟩

variable (w : Watch)

/-- The directories in which the files stand. -/
def directories : List (List Text) := w.tracked.map fun t => t.1.dropLast

/-- The name of the file that has to be checked after something was written at a place. -/
def name? (place : List Text) : Option Text := w.tracked.lookup place

end Watch

/-- Whether watching goes on after a first check: files could be read, or problems were found in
those that could. -/
def CheckOutcome.goesOn (o : CheckOutcome) : Bool := o.faults.isEmpty || o.faults.contains .problems

/-- What a check prints about a file that has been written: only that it could not be read is an
error. -/
def CheckOutcome.complaint (o : CheckOutcome) : Text :=
  if o.goesOn then [] else CheckFault.report o.faults ++ [0x0A]

end RobotsTxt
