import RobotsTxt.Server.Operation
import RobotsTxt.Server.Publication

/-!
# Opening, changing and closing documents

* `Server.openDocument`, `Server.changeDocument`, `Server.closeDocument`: what a client does with
  its documents.
* `Server.applySettings`, `Server.configure`: new settings, which are looked at in every respect
  before the first of them is taken over.
* `Server.start`, `Server.shutDown`: the beginning and the end.
-/

namespace RobotsTxt.Server

variable (s : Server)

/-! ## Documents -/

/-- Opens a document. One that is open under the same URI is replaced. -/
def openDocument (uri : Text) (version : Int) (text : Text) : Server :=
  let d := OpenDocument.create s.nextSerial uri version text s.dispatcher
  let rest := match s.find? uri with
    | some old => s.release old
    | none => s
  { rest with documents := rest.documents ++ [d], nextSerial := s.nextSerial + 1 }.schedule d

/-- What is sent about an edit that the given listeners have heard of. -/
def announcement (d : OpenDocument) (event? : Option TagsChanged) (heard : List Nat) :
    List Message :=
  match event? with
  | none => []
  | some event =>
    if s.notifies && heard.contains d.listener && event.version == d.version then
      match d.text.rangeOf event.span with
      | .ok range => [.tagsChanged d.uri event.version range]
      | .error _ => []
    else []

/-- Changes an open document. A change to a version that is not newer is ignored, but the
diagnostics are published all the same. -/
def changeDocument (uri : Text) (version : Int) (changes : List ContentChange) :
    Operation (List Message) := do
  let s ← get
  match s.find? uri with
  | none => throw (.notOpen uri)
  | some d =>
    if version ≤ d.version then do
      modify fun s => s.schedule d
      return []
    else do
      let (text, change) ← Operation.ofExcept .content (changedText d.text changes)
      match d.session.applyEdit ⟨d.snapshot, ⟨version, text⟩, [change]⟩ with
      | ((event?, heard), session) => do
        let d := { d with version, text, session }
        modify fun s => s.update d
        modify fun s => s.schedule d
        return s.announcement d event? heard

/-- Lets the document with a URI go, if it is open, and releases whoever waits for a version of it.
-/
def forget (uri : Text) : Server :=
  let rest := match s.find? uri with
    | some d => s.release d
    | none => s
  { rest with versions := (rest.versions.update uri .closed).2 }

/-- Closes a document and takes its diagnostics back, even if it was not open. The document is let
go at once, but its diagnostics are taken back under the lock: a publication that holds it sends
before. -/
def closeDocument (uri : Text) : List Message × Server :=
  match (s.forget uri).unlock with
  | (sent, s) => (sent ++ [.diagnostics uri 0 []], s)

/-! ## Settings -/

/-- The settings with the workspace's configuration file, if they name none. -/
def complete (given : Settings) : Settings :=
  if given.configFile.isEmpty then { given with configFile := s.rootConfigFile } else given

/-- The state with another dispatcher, which all open documents use from now on, each in a session
of its own. The server does not listen to the old sessions any more. -/
def setDispatcher (dispatcher : Dispatcher) : Server :=
  { s with
    dispatcher
    generation := s.generation + 1
    documents := s.documents.map fun d => d.reattach dispatcher
    publications := s.publications.map fun p => s.documents.foldl Publication.detach p }

/-- **Takes over settings**, or reports why they cannot be taken over. -/
def applySettings (disk : Disk) (given : Settings) : Operation Unit := do
  let settings := (← get).complete given
  let level? ← Operation.ofExcept .level settings.level?
  let dispatcher ← Operation.ofExcept .load (settings.dispatcher disk)
  -- nothing is refused from here on
  if let some logLevel := level? then modify fun s => { s with logLevel }
  modify fun s => { s with settings }
  modify fun s => s.setDispatcher dispatcher

/-- Starts a publication for each of some documents. -/
def scheduleAll : Server → List OpenDocument → Server
  | s, [] => s
  | s, d :: ds => scheduleAll (s.schedule d) ds

/-- Takes over the settings that a client has sent, and publishes the diagnostics of every open
document. -/
def configure (disk : Disk) (sent : Option Json) : Operation Unit := do
  let given ← Operation.ofExcept .settings (Settings.ofJson sent)
  applySettings disk given
  modify fun s => s.scheduleAll s.documents

/-! ## Beginning and end -/

/-- The path of the configuration file in the folder of a workspace. -/
def workspaceConfig (folder : Text) : Text :=
  cleanPath (if folder.isEmpty then defaultConfigFile else folder ++ utf8 "/" ++ defaultConfigFile)

/-- Searches the folder of the workspace for a configuration file. -/
def searchWorkspace (disk : Disk) (root : Text) : Operation Unit := do
  if !root.isEmpty then
    let folder ← Operation.ofExcept .workspace (Uri.path root)
    let candidate := workspaceConfig folder
    if disk.present candidate then modify fun s => { s with rootConfigFile := candidate }

/-- Begins the work in a workspace. Options that cannot be read count as none, and settings that
cannot be taken over are passed over; only a breakdown is reported. -/
def start (disk : Disk) (root : Text) (options : Option Json) : Operation Unit := do
  searchWorkspace disk root
  try
    applySettings disk ((Settings.ofJson options).toOption.getD {})
  catch e => if e.isBreakdown then throw e

/-- Closes the documents with some URIs. -/
def forgetAll : Server → List Text → Server
  | s, [] => s
  | s, uri :: uris => forgetAll (s.forget uri) uris

/-- Shuts the server down and closes all documents. -/
def shutDown : Server := { s with isShutDown := true }.forgetAll (s.documents.map OpenDocument.uri)

end RobotsTxt.Server
