import RobotsTxt.Canonical
import RobotsTxt.Overwrite

/-!
# Formatting files

* `formatInPlace`: brings a file into canonical form, and writes it only if it changes.
* `formatFiles`: the same for several files, or their canonical texts.
-/

namespace RobotsTxt

/-- Why a file could not be formatted. -/
inductive FormatFault where
  | file (fault : FileFault)
  | overwrite (fault : OverwriteFault)
  deriving Repr, DecidableEq

/-- The wording of a fault. -/
def FormatFault.message : FormatFault → Text
  | .file fault => fault.message
  | .overwrite fault => fault.message

/-- A file that was formatted. -/
structure Formatted where
  path : Text
  /-- The canonical text. -/
  text : Text
  /-- Whether the text was another before. -/
  changed : Bool
  deriving Repr, DecidableEq

section

variable {m : Type → Type} [Monad m] {Handle : Type} (access : FileAccess m Handle)

/-- The canonical text of a file. -/
def formatFile (path : Text) : m (Except FormatFault Formatted) := do
  match ← access.read path with
  | .error e => return .error (.file e)
  | .ok old =>
    let new := canonicalText old
    return .ok { path, text := new, changed := old != new }

/-- Brings a file into canonical form. -/
def formatInPlace (path : Text) : m (Except FormatFault Formatted) := do
  match ← access.stat path with
  | .error e => return .error (.file e)
  | .ok known =>
    match ← access.read path with
    | .error e => return .error (.file e)
    | .ok old =>
      let new := canonicalText old
      if old == new then return .ok { path, text := new, changed := false }
      match ← overwrite access path old new known.mode known.size with
      | .error e => return .error (.overwrite e)
      | .ok () => return .ok { path, text := new, changed := true }

/-- What is printed about formatted files: the names of those that have changed, or the canonical
texts unless they have been written. -/
def formatOutput (write list : Bool) (files : List Formatted) : Text :=
  if list then files.flatMap fun f => if f.changed then f.path ++ [0x0A] else []
  else if write then []
  else files.flatMap Formatted.text

/-- **Formats some files.** Every file is dealt with, and the first fault is reported in place of
any output. -/
def formatFiles (write list : Bool) (paths : List Text) : m (Except FormatFault Text) := do
  let results ← paths.mapM (if write then formatInPlace access else formatFile access)
  return (results.mapM id).map (formatOutput write list)

end

end RobotsTxt
