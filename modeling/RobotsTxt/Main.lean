import RobotsTxt.Command.Run

/-!
# The program

The command line, on the real files and the standard streams.
-/

namespace RobotsTxt.Program

/-- A text as a string; stray bytes are lost. -/
def toString (t : Text) : String := (String.fromUTF8? ⟨t.toArray⟩).getD ""

/-- The bytes of an array as a text. -/
def ofBytes (b : ByteArray) : Text := b.data.toList

/-- A text as an array of bytes. -/
def toBytes (t : Text) : ByteArray := ⟨t.toArray⟩

/-! ## Files -/

/-- The cause of a failure. -/
def cause : IO.Error → FileCause
  | .noFileOrDirectory .. => .notFound
  | .alreadyExists .. => .alreadyExists
  | .invalidArgument .. => .invalid
  | e => .other (utf8 (ToString.toString e))

/-- Does something with a path and reports a failure. -/
def attempt {α : Type} (action : FileAction) (path : Text) (act : IO α) :
    IO (Except FileFault α) := do
  try
    return .ok (← act)
  catch e => return .error ⟨action, path, cause e⟩

/-- Does something with a path for its effect. -/
def effect (action : FileAction) (path : Text) (act : IO Unit) : IO (Option FileFault) := do
  match ← attempt action path act with
  | .ok () => return none
  | .error e => return some e

/-- The content of a file. -/
def readFile (path : Text) : IO (Except FileFault Text) := do
  match ← attempt .openFile path (IO.FS.Handle.mk (toString path) .read) with
  | .error e => return .error e
  | .ok h =>
    match ← attempt .readFile path h.readBinToEnd with
    | .ok bytes => return .ok (ofBytes bytes)
    | .error e => return .error e

/-- The size of a file; zero for anything else. -/
def statFile (path : Text) : IO (Except FileFault Nat) := do
  match ← attempt .statFile path (IO.FS.Handle.mk (toString path) .read) with
  | .error e => return .error e
  | .ok _ => return .ok ((← readFile path).toOption.getD []).length

/-- Creates an empty file beside another, with the first of some random numbers that is free. -/
def createBackup (path : Text) :
    (tries : Nat) → IO (Except FileFault (Text × Text × IO.FS.Handle))
  | 0 => return .error (backupFault path)
  | tries + 1 => do
    let backup := backupPath path (← IO.rand 0 0xFFFFFFFF)
    match ← attempt .openFile backup (IO.FS.Handle.mk (toString backup) .writeNew) with
    | .ok h => return .ok (backup, backup, h)
    | .error e =>
      if e.cause = .alreadyExists then createBackup path tries else return .error e

/-- Permissions by their bits. -/
def rights (mode : Nat) : IO.FileRight :=
  let part (bits : Nat) : IO.AccessRight :=
    { read := bits.testBit 2, write := bits.testBit 1, execution := bits.testBit 0 }
  { user := part (mode / 64), group := part (mode / 8), other := part mode }

/-- Writes to an open file, down to the file itself. -/
def writeThrough (h : Text × IO.FS.Handle) (data : Text) : IO (Option FileFault) :=
  effect .writeFile h.1 do
    h.2.write (toBytes data)
    h.2.flush

/-- The real files as a setting. -/
def access : FileAccess IO (Text × IO.FS.Handle) where
  read := readFile
  stat path := return (← statFile path).map fun size => { size }
  createBackup path := createBackup path backupTries
  permit h mode := effect .permitFile h.1 (IO.setAccessRights (toString h.1) (rights mode))
  remove path := do
    let _ ← effect .openFile path (IO.FS.removeFile (toString path))
  openFile path := do
    match ← attempt .openFile path (IO.FS.Handle.mk (toString path) .readWrite) with
    | .ok h => return .ok (path, h)
    | .error e => return .error e
  write h data := do
    -- how far a write has come that fails is not known; but whether it has changed the file is
    match ← writeThrough h (data.take 1) with
    | some e => return (0, some e)
    | none =>
      match ← writeThrough h (data.drop 1) with
      | some e => return (1, some e)
      | none => return (data.length, none)
  writeAgain h data := do
    match ← effect .writeFile h.1 h.2.rewind with
    | some e => return some e
    | none => writeThrough h data
  truncate h _ := effect .truncateFile h.1 h.2.truncate
  close _ := return none

/-- What is seen of some files now. -/
def look (paths : List Text) : IO Disk := do
  let seen ← paths.mapM fun path => return (path, ← readFile path, ← statFile path)
  let absent (action : FileAction) (path : Text) : FileFault := ⟨action, path, .notFound⟩
  return {
    read := fun path => ((seen.lookup path).map Prod.fst).getD (.error (absent .openFile path))
    stat := fun path => ((seen.lookup path).map Prod.snd).getD (.error (absent .statFile path)) }

/-! ## Conversations -/

/-- The bytes up to the next line feed; none at the end of the input. -/
partial def readLine (input : IO.FS.Stream) (line : Text) : IO (Option Text) := do
  match ofBytes (← input.read 1) with
  | [] => return none
  | b :: _ => if b == 0x0A then return some line.reverse else readLine input (b :: line)

/-- A number of bytes, or fewer at the end of the input. -/
partial def readBody (input : IO.FS.Stream) (length : Nat) (body : Text) : IO Text := do
  if length ≤ body.length then return body
  match ofBytes (← input.read (.ofNat (length - body.length))) with
  | [] => return body
  | more => readBody input length (body ++ more)

/-- The body of the next frame, after a part of its header. -/
partial def readFrame (input : IO.FS.Stream) (length : Int) : IO (Except WireFault Text) := do
  match ← readLine input [] with
  | none => return .error .endOfHeader
  | some line =>
    match Header.take length line with
    | .error e => return .error e
    | .ok (.lines length) => readFrame input length
    | .ok (.body n) =>
      let body ← readBody input n []
      return if body.length < n then .error (.endOfBody !body.isEmpty) else .ok body

/-- The files that a message may make the server look at. -/
def consulted (server : Server) : Incoming → List Text
  | .answer => []
  | .call _ method params =>
    match Request.read method params with
    | .ok r => server.consulted r
    | .error _ => []

/-- The conversation with a client. -/
partial def converse (input output : IO.FS.Stream) (c : Connection) : IO (Option WireFault) := do
  match ← readFrame input 0 with
  | .error e => return some e
  | .ok body =>
    match Incoming.ofBody body with
    | .error e => return some e
    | .ok message =>
      let (frames, c) := c.respond (← look (consulted c.server message)) message
      output.write (toBytes frames.flatten)
      output.flush
      if c.isClosed then return none
      converse input output c

/-- A server of its own identity. -/
def newServer (level : Text) : IO Server := do
  let part : IO Text := return hexDigits 8 (← IO.rand 0 0xFFFFFFFF)
  return {
    identity := (← part) ++ (← part) ++ (← part) ++ (← part)
    logLevel := (LogLevel.parse level).toOption.getD .info }

/-! ## Watching -/

/-- Looks at the watched files again and again, and checks those that have changed. -/
partial def watchLoop (output errors : IO.FS.Stream) (w : Watching)
    (seen : List (List Text × Option Text)) : IO Unit := do
  IO.sleep 500
  let now ← w.watch.tracked.mapM fun t => return (t.1, (← readFile t.2).toOption)
  for (place, content) in now.eraseDups do
    if content.isSome && (seen.lookup place) != some content then
      let (stdout, stderr) ← w.notice access place
      output.write (toBytes stdout)
      errors.write (toBytes stderr)
      output.flush
  watchLoop output errors w now

/-! ## Start -/

/-- Runs a command line and gives what it prints and why it fails. -/
def run (arguments : List Text) : IO CommandOutcome := do
  let output ← IO.getStdout
  match Invocation.read arguments with
  | .error e => return { fault? := some (.usage e) }
  | .ok (.check config true files) =>
    let directory := absolute [] (utf8 (ToString.toString (← IO.currentDir)))
    let (text, started) ← startWatching access directory config files
    output.write (toBytes text)
    match started with
    | .error e => return { fault? := some e }
    | .ok w =>
      let seen ← w.watch.tracked.mapM fun t => return (t.1, (← readFile t.2).toOption)
      watchLoop output (← IO.getStderr) w seen
      return {}
  | .ok invocation =>
    let level := match invocation with
      | .serve _ level => level
      | _ => []
    let conversation : IO (Text × Option WireFault) := do
      let c : Connection := { server := ← newServer level }
      return ([], ← converse (← IO.getStdin) output c)
    runCommand access conversation invocation

end RobotsTxt.Program

/-- Runs the command line. -/
def main (arguments : List String) : IO UInt32 := do
  let o ← RobotsTxt.Program.run (arguments.map RobotsTxt.utf8)
  let output ← IO.getStdout
  output.write (RobotsTxt.Program.toBytes o.output)
  output.flush
  match o.fault? with
  | none => return 0
  | some e =>
    let complaint := RobotsTxt.utf8 "Error: " ++ e.message ++ [0x0A]
    (← IO.getStderr).write (RobotsTxt.Program.toBytes complaint)
    return 1
