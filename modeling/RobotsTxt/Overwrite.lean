import RobotsTxt.Files

/-!
# Overwriting files

A file is overwritten in place. A backup is made before and removed afterwards; if anything goes
wrong the old content is put back, and if that goes wrong too, the backup stays.

* `FileAccess`: what has to be done with files, in a setting `m` that may be the real one or a
  model.
* `overwrite`: overwrites a file.
* `Files.access`: the tree of files in memory as a setting, in which every step succeeds that the
  paths allow.
* `Scene.access`: the same tree as a setting in which any step may fail.
-/

namespace RobotsTxt

/-- What is known of a file without reading it. -/
structure FileStat where
  size : Nat
  /-- The permissions. -/
  mode : Nat := 0o644
  deriving Repr, DecidableEq

/-- What has to be done with files. A step that fails reports the fault and does nothing, except
that writing may fail after some bytes have been written. -/
structure FileAccess (m : Type → Type) (Handle : Type) where
  read : Text → m (Except FileFault Text)
  stat : Text → m (Except FileFault FileStat)
  /-- Creates an empty file of a new name beside a file, and gives its path. -/
  createBackup : Text → m (Except FileFault (Text × Handle))
  /-- Gives an open file some permissions. -/
  permit : Handle → Nat → m (Option FileFault)
  remove : Text → m Unit
  /-- Opens a file at its start, without truncating it. -/
  openFile : Text → m (Except FileFault Handle)
  /-- Writes at the start of a newly opened file; gives the number of bytes written. -/
  write : Handle → Text → m (Nat × Option FileFault)
  /-- Goes back to the start and writes there. -/
  writeAgain : Handle → Text → m (Option FileFault)
  truncate : Handle → Nat → m (Option FileFault)
  /-- Closes a file. Closing it again is a fault, and does nothing. -/
  close : Handle → m (Option FileFault)

/-- Why a file could not be overwritten. -/
inductive OverwriteFault where
  | backup (path : Text) (fault : FileFault)
  | file (fault : FileFault)
  /-- The old content could not be put back either. -/
  | restore (path : Text) (fault again : FileFault) (kept : Text)
  | close (fault : FileFault) (kept : Text)
  deriving Repr, DecidableEq

/-- The wording of a fault. Whenever a backup stays, it is named. -/
def OverwriteFault.message : OverwriteFault → Text
  | .backup path fault => utf8 "backing up " ++ path ++ utf8 ": " ++ fault.message
  | .file fault => fault.message
  | .restore path fault again kept =>
    fault.message ++ utf8 "\nrestoring " ++ path ++ utf8 ": " ++ again.message ++
      utf8 "; backup in " ++ kept
  | .close fault kept => fault.message ++ utf8 "; backup in " ++ kept

section

variable {m : Type → Type} [Monad m] {Handle : Type} (access : FileAccess m Handle)

/-- Writes a newly created file and closes it. -/
def fill (h : Handle) (data : Text) (mode : Nat) : m (Option FileFault) := do
  match ← access.permit h mode with
  | some e => do
    let _ ← access.close h
    return some e
  | none => do
    let (_, writing?) ← access.write h data
    let closing? ← access.close h
    return writing?.or closing?

/-- Makes a backup of a file and gives its path. One that could not be completed is removed. -/
def backUp (path data : Text) (mode : Nat) : m (Except FileFault Text) := do
  match ← access.createBackup path with
  | .error e => return .error e
  | .ok (backup, h) =>
    match ← fill access h data mode with
    | none => return .ok backup
    | some e => do
      access.remove backup
      return .error e

/-- Puts the old content of a file back and closes it. -/
def restore (h : Handle) (old : Text) : m (Option FileFault) := do
  match ← access.writeAgain h old with
  | some e => return some e
  | none =>
    match ← access.truncate h old.length with
    | some e => return some e
    | none => access.close h

/-- Writes the new content of a file that had `size` bytes: the number of bytes written, and what
has gone wrong. -/
def writeOver (h : Handle) (new : Text) (size : Nat) : m (Nat × Option FileFault) := do
  match ← access.write h new with
  | (n, some e) => return (n, some e)
  | (n, none) => if n < size then return (n, ← access.truncate h n) else return (n, none)

/-- Overwrites an open file that holds `old`, in `size` bytes, with `new`. -/
def overwriteOpen (path backup : Text) (h : Handle) (old new : Text) (size : Nat) :
    m (Except OverwriteFault Unit) := do
  match ← writeOver access h new size with
  | (n, some e) =>
    if n = 0 then
      -- nothing was written
      access.remove backup
      return .error (.file e)
    else
      match ← restore access h old with
      | some again => return .error (.restore path e again backup)
      | none => do
        access.remove backup
        return .error (.file e)
  | (_, none) =>
    match ← access.close h with
    | some e => return .error (.close e backup)
    | none => do
      access.remove backup
      return .ok ()

/-- **Overwrites a file** that holds `old`, in `size` bytes, with `new`. -/
def overwrite (path old new : Text) (mode size : Nat) : m (Except OverwriteFault Unit) := do
  match ← backUp access path old mode with
  | .error e => return .error (.backup path e)
  | .ok backup =>
    match ← access.openFile path with
    | .error e => do
      access.remove backup
      return .error (.file e)
    | .ok h => do
      let result ← overwriteOpen access path backup h old new size
      -- on the ways on which it is still open
      let _ ← access.close h
      return result

end

/-! ## What the steps do -/

/-- A content after data has been written at its start. -/
def Text.writtenOver (content data : Text) : Text := data ++ content.drop data.length

/-- A content after it has been brought to a length. -/
def Text.truncated (content : Text) (length : Nat) : Text :=
  content.take length ++ List.replicate (length - content.length) 0

/-- The directory part of a path, up to its last slash, and the rest. -/
def splitPath (path : Text) : Text × Text :=
  match path.cutLast 0x2F with
  | (some directory, name) => (directory ++ utf8 "/", name)
  | (none, name) => ([], name)

/-- A part of the path of a backup of a file, up to the number, and the part behind it. -/
def backupParts (path : Text) : Text × Text :=
  match splitPath path with
  | (directory, name) =>
    ((if directory.isEmpty then utf8 "./" else directory) ++ name ++ utf8 ".", utf8 ".bak")

/-- The path of a backup with a number, beside a file. -/
def backupPath (path : Text) (number : Nat) : Text :=
  match backupParts path with
  | (front, back) => front ++ Text.ofNat number ++ back

/-- A number with which backups start. -/
def firstBackup : Nat := 1000000000

/-- How many numbers are tried for a backup. -/
def backupTries : Nat := 10000

/-- None of the numbers that were tried is free. -/
def backupFault (path : Text) : FileFault :=
  match backupParts path with
  | (front, back) => ⟨.createTemporary, front ++ utf8 "*" ++ back, .alreadyExists⟩

/-- An open file. -/
structure OpenFile where
  path : Text
  place : List Text
  deriving Repr, DecidableEq

/-! ## Trees of files -/

namespace Files

variable (fs : Files)

/-- The place at which a new file of a given path would stand. -/
def destination (path : Text) : Except FileCause (List Text) :=
  let parts := pathParts path
  let name := parts.getLast?.getD []
  if path.contains 0 then .error .invalid
  else if maxPath ≤ path.length then .error .nameTooLong
  else if name.isEmpty || name == utf8 "." || name == utf8 ".." then .error .isDirectory
  else
    -- the empty part behind it is to be found in a directory only
    match fs.follow (fs.origin path) (parts.dropLast ++ [[]]) with
    | .error cause => .error cause
    | .ok place => if maxName < name.length then .error .nameTooLong else .ok (place ++ [name])

/-- The path and the place of a new backup of a file: the first of some numbers that is free. -/
def newBackup (path : Text) : (tries number : Nat) → Except FileFault OpenFile
  | 0, _ => .error (backupFault path)
  | tries + 1, number =>
    let backup := backupPath path number
    match fs.destination backup with
    | .error cause => .error ⟨.openFile, backup, cause⟩
    | .ok place =>
      if (fs.entry? place).isSome then newBackup path tries (number + 1) else .ok ⟨backup, place⟩

/-- Opens a file to write it. -/
def openToWrite (path : Text) : Except FileFault OpenFile :=
  match fs.resolve path with
  | .error cause => .error ⟨.openFile, path, cause⟩
  | .ok place =>
    match fs.entry? place with
    | some (.file _) => .ok ⟨path, place⟩
    | some .directory => .error ⟨.openFile, path, .isDirectory⟩
    | none => .error ⟨.openFile, path, .notFound⟩

/-- Changes the content of a file. -/
def alter (place : List Text) (f : Text → Text) : Files :=
  match fs.entry? place with
  | some (.file content) => fs.put place (.file (f content))
  | _ => fs

/-- A tree of files as a setting, with the number that is tried first for a backup. No step fails,
except for the paths. A tree knows no permissions. -/
def accessFrom (number : Nat) : FileAccess (StateM Files) OpenFile where
  read path := return (← get).read path
  stat path := return ((← get).stat path).map fun size => { size }
  createBackup path := do
    match (← get).newBackup path backupTries number with
    | .error e => return .error e
    | .ok h => do
      modify fun fs => fs.put h.place (.file [])
      return .ok (h.path, h)
  permit _ _ := return none
  remove path := modify fun fs => fs.remove path
  openFile path := return (← get).openToWrite path
  write h data := do
    modify fun fs => fs.alter h.place fun content => content.writtenOver data
    return (data.length, none)
  writeAgain h data := do
    modify fun fs => fs.alter h.place fun content => content.writtenOver data
    return none
  truncate h n := do
    modify fun fs => fs.alter h.place fun content => content.truncated n
    return none
  close _ := return none

/-- A tree of files as a setting. -/
def access : FileAccess (StateM Files) OpenFile := accessFrom firstBackup

end Files

/-! ## Failing steps -/

/-- A tree of files, and what will come of the steps to be taken: none for success, or after how
many bytes a step fails and why. Steps without an outcome of their own succeed. -/
structure Scene where
  files : Files
  outcomes : List (Option (Nat × FileCause)) := []
  deriving Repr, DecidableEq

namespace Scene

variable {α : Type}

/-- The outcome of the next step. -/
def next : StateM Scene (Option (Nat × FileCause)) := do
  let s ← get
  set { s with outcomes := s.outcomes.drop 1 }
  return s.outcomes.head?.join

/-- A step that takes place as it does in the tree. -/
def carryOut (step : StateM Files α) : StateM Scene α := do
  let s ← get
  let (a, files) := step.run s.files
  set { s with files }
  return a

/-- A step that takes place or fails without an effect. -/
def attempt (failed : FileFault → α) (action : FileAction) (path : Text) (step : StateM Files α) :
    StateM Scene α := do
  match ← next with
  | some (_, cause) => return failed ⟨action, path, cause⟩
  | none => carryOut step

/-- A step that writes data to a file, and may fail on the way. -/
def attemptWrite (path data : Text) (step : Text → StateM Files (Nat × Option FileFault)) :
    StateM Scene (Nat × Option FileFault) := do
  match ← next with
  | some (n, cause) => do
    let (written, _) ← carryOut (step (data.take n))
    return (written, some ⟨.writeFile, path, cause⟩)
  | none => carryOut (step data)

/-- **A tree of files as a setting in which any step may fail**, except for the removal of a file.
-/
def access (number : Nat) : FileAccess (StateM Scene) OpenFile :=
  let tree := Files.accessFrom number
  { read := fun path => attempt .error .openFile path (tree.read path)
    stat := fun path => attempt .error .statFile path (tree.stat path)
    createBackup := fun path =>
      attempt .error .openFile (backupPath path number) (tree.createBackup path)
    permit := fun h mode => attempt some .permitFile h.path (tree.permit h mode)
    remove := fun path => carryOut (tree.remove path)
    openFile := fun path => attempt .error .openFile path (tree.openFile path)
    write := fun h data => attemptWrite h.path data (tree.write h)
    writeAgain := fun h data => return (← attemptWrite h.path data (tree.write h)).2
    truncate := fun h n => attempt some .truncateFile h.path (tree.truncate h n)
    close := fun h => attempt some .closeFile h.path (tree.close h) }

end Scene

end RobotsTxt
