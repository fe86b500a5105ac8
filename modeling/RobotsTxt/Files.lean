import RobotsTxt.Text.Bytes

/-!
# Files

What a program sees of the files around it, and why it cannot see one.

* `FileFault`: a failed action on a path, and its cause.
* `Disk`: the answers of a file system at one moment.
* `Files`: a tree of files in memory, with a working directory; `Files.disk` is what a program sees
  of it.
-/

namespace RobotsTxt

/-- Why an action on a path fails. -/
inductive FileCause where
  | notFound
  | notDirectory
  | isDirectory
  | nameTooLong
  | invalid
  | alreadyExists
  | refused
  /-- Any other cause, in the words of the operating system. -/
  | other (text : Text)
  deriving Repr, DecidableEq

/-- The wording of a cause. -/
def FileCause.message : FileCause → Text
  | .notFound => utf8 "no such file or directory"
  | .notDirectory => utf8 "not a directory"
  | .isDirectory => utf8 "is a directory"
  | .nameTooLong => utf8 "file name too long"
  | .invalid => utf8 "invalid argument"
  | .alreadyExists => utf8 "file already exists"
  | .refused => utf8 "connection refused"
  | .other text => text

/-- What is done with a path. -/
inductive FileAction where
  | openFile
  | readFile
  | statFile
  | createTemporary
  | permitFile
  | writeFile
  | truncateFile
  | closeFile
  deriving Repr, DecidableEq

/-- The name of an action. -/
def FileAction.name : FileAction → Text
  | .openFile => utf8 "open"
  | .readFile => utf8 "read"
  | .statFile => utf8 "stat"
  | .createTemporary => utf8 "createtemp"
  | .permitFile => utf8 "chmod"
  | .writeFile => utf8 "write"
  | .truncateFile => utf8 "truncate"
  | .closeFile => utf8 "close"

/-- A failed action on a path. -/
structure FileFault where
  action : FileAction
  path : Text
  cause : FileCause
  deriving Repr, DecidableEq

/-- The wording of a fault. -/
def FileFault.message (e : FileFault) : Text :=
  e.action.name ++ utf8 " " ++ e.path ++ utf8 ": " ++ e.cause.message

/-- The answers of a file system at one moment. -/
structure Disk where
  /-- The content of a file. -/
  read : Text → Except FileFault Text
  /-- The size of a file or of whatever else stands at a path. -/
  stat : Text → Except FileFault Nat

/-- Whether something stands at a path. -/
def Disk.present (disk : Disk) (path : Text) : Bool := (disk.stat path).toBool

/-! ## Paths -/

/-- The parts of a path between its slashes. -/
def pathParts : Text → List Text
  | [] => [[]]
  | b :: t =>
    match pathParts t with
    | [] => [[b]]
    | part :: parts => if b == 0x2F then [] :: part :: parts else (b :: part) :: parts

/-- Whether a path starts at the root. -/
def isRooted (path : Text) : Bool := path.head? == some 0x2F

/-- The names that lead from a directory to where some parts of a path point, where `.` stands for
the directory itself and `..` for the one above it. Nothing is above the root. -/
def normalize (directory : List Text) : List Text → List Text
  | [] => directory
  | part :: parts =>
    if part.isEmpty || part == utf8 "." then normalize directory parts
    else if part == utf8 ".." then normalize directory.dropLast parts
    else normalize (directory ++ [part]) parts

/-- The names that lead from the root to where a path points. -/
def absolute (directory : List Text) (path : Text) : List Text :=
  normalize (if isRooted path then [] else directory) (pathParts path)

/-- The rooted path of some names. -/
def rootedPath (names : List Text) : Text :=
  if names.isEmpty then utf8 "/" else names.flatMap fun n => 0x2F :: n

/-- The parts of a path that does not start at the root, with `.` and `..` taken out where that is
possible. -/
def cleanParts (done : List Text) : List Text → List Text
  | [] => done
  | part :: parts =>
    if part.isEmpty || part == utf8 "." then cleanParts done parts
    else if part == utf8 ".." && !done.isEmpty && done.getLast? != some (utf8 "..") then
      cleanParts done.dropLast parts
    else cleanParts (done ++ [part]) parts

/-- The shortest spelling of a path, found without looking at any file. -/
def cleanPath (path : Text) : Text :=
  if isRooted path then rootedPath (normalize [] (pathParts path))
  else match cleanParts [] (pathParts path) with
    | [] => utf8 "."
    | parts => [0x2F].intercalate parts

/-! ## Trees of files -/

/-- What can stand at a path. -/
inductive Entry where
  | file (content : Text)
  | directory
  deriving Repr, DecidableEq

/-- A tree of files and a working directory. Paths are given by the names that lead to them from the
root. -/
structure Files where
  entries : List (List Text × Entry) := []
  /-- The working directory, which exists. -/
  here : List Text := []
  deriving Repr, DecidableEq

namespace Files

variable (fs : Files)

/-- What stands at a path. Every path on the way to an entry, or to the working directory, is a
directory. -/
def entry? (names : List Text) : Option Entry :=
  match fs.entries.lookup names with
  | some e => some e
  | none =>
    if names.isPrefixOf fs.here || fs.entries.any (fun e => names.isPrefixOf e.1) then
      some .directory
    else none

/-- The longest name that a file may have. -/
def maxName : Nat := 255

/-- Paths have to be shorter than this. -/
def maxPath : Nat := 4096

/-- Follows the parts of a path from a place in the tree. -/
def follow (place : List Text) : List Text → Except FileCause (List Text)
  | [] => .ok place
  | part :: parts =>
    match fs.entry? place with
    | some .directory =>
      if part.isEmpty || part == utf8 "." then follow place parts
      else if part == utf8 ".." then follow place.dropLast parts
      else if maxName < part.length then .error .nameTooLong
      else if (fs.entry? (place ++ [part])).isSome then follow (place ++ [part]) parts
      else .error .notFound
    | _ => .error .notDirectory

/-- Where a path begins: at the root or in the working directory. -/
def origin (path : Text) : List Text := if isRooted path then [] else fs.here

/-- The place in the tree that a path leads to. -/
def resolve (path : Text) : Except FileCause (List Text) :=
  if path.contains 0 then .error .invalid
  else if maxPath ≤ path.length then .error .nameTooLong
  else if path.isEmpty then .error .notFound
  else fs.follow (fs.origin path) (pathParts path)

/-- The content of a file. A directory can be opened, but not read. -/
def read (path : Text) : Except FileFault Text :=
  match fs.resolve path with
  | .error cause => .error ⟨.openFile, path, cause⟩
  | .ok place =>
    match fs.entry? place with
    | some (.file content) => .ok content
    | some .directory => .error ⟨.readFile, path, .isDirectory⟩
    | none => .error ⟨.openFile, path, .notFound⟩

/-- The size of what stands at a path. -/
def stat (path : Text) : Except FileFault Nat :=
  match fs.resolve path with
  | .error cause => .error ⟨.statFile, path, cause⟩
  | .ok place =>
    match fs.entry? place with
    | some (.file content) => .ok content.length
    | _ => .ok 0

/-- What a program sees of a tree. -/
def disk : Disk := { read := fs.read, stat := fs.stat }

/-- The tree with one entry set, which takes the place of an earlier one. -/
def put (names : List Text) (e : Entry) : Files :=
  { fs with entries := fs.entries.filter (fun f => f.1 != names) ++ [(names, e)] }

/-- The tree with a file written at a path, along with the directories on the way to it. -/
def write (path content : Text) : Files := fs.put (absolute fs.here path) (.file content)

/-- The tree with a directory at a path. -/
def makeDirectory (path : Text) : Files := fs.put (absolute fs.here path) .directory

/-- The tree without what stands at a path. The directory that held it stays. -/
def remove (path : Text) : Files :=
  let names := absolute fs.here path
  let rest := { fs with entries := fs.entries.filter fun f => f.1 != names }
  match names.dropLast with
  | [] => rest
  | parent => if (rest.entry? parent).isSome then rest else rest.put parent .directory

/-- The files under the working directory, by the names that lead there from it. -/
def listing : List (List Text × Text) :=
  fs.entries.filterMap fun (names, e) =>
    match e with
    | .file content =>
      if fs.here.isPrefixOf names then some (names.drop fs.here.length, content) else none
    | .directory => none

end Files

end RobotsTxt
