import RobotsTxt.Editor.Marker
import RobotsTxt.Server.Fault
import RobotsTxt.Server.VersionQueue
import RobotsTxt.Session

/-!
# The server's state

The documents that a client has opened, the settings in force, and the publications that are still
to be made. Every operation is a function from one state to the next, along with the messages that
go to the client.

* `OpenDocument`: a document that a client has opened, with the session that answers questions about
  it.
* `Server`: the state; no two open documents have one URI.
* `Message`: what is sent to the client without being asked for.
-/

namespace RobotsTxt

/-- A document that a client has opened. -/
structure OpenDocument where
  /-- Tells the document apart from every other that was ever opened, under the same URI too. -/
  serial : Nat
  uri : Text
  version : Int
  text : Text
  session : Session
  /-- How many sessions the document has had. -/
  sessions : Nat := 1
  /-- The number under which the server listens to the session. -/
  listener : Nat

namespace OpenDocument

variable (d : OpenDocument)

/-- The current version and its text. -/
def snapshot : Snapshot := ⟨d.version, d.text⟩

/-- Opens a document, with a session of its own to which the server listens. -/
def create (serial : Nat) (uri : Text) (version : Int) (text : Text) (dispatcher : Dispatcher) :
    OpenDocument :=
  match ({ dispatcher } : Session).listen with
  | (listener, session) => { serial, uri, version, text, session, listener }

/-- The document with a new session. The server does not listen to the old one any more. -/
def reattach (dispatcher : Dispatcher) : OpenDocument :=
  match ({ dispatcher } : Session).listen with
  | (listener, session) => { d with session, listener, sessions := d.sessions + 1 }

/-- Asks for the current tree. -/
def tree : Tree × OpenDocument :=
  match d.session.tree d.snapshot with
  | (t, session) => (t, { d with session })

end OpenDocument

/-- What is sent to the client without being asked for. -/
inductive Message where
  /-- The range of a document that has to be looked at again after an edit. -/
  | tagsChanged (uri : Text) (version : Int) (range : Range)
  /-- The diagnostics of a version of a document. Version zero is left out when it is sent. -/
  | diagnostics (uri : Text) (version : Int) (items : List Marker)
  deriving Repr, DecidableEq

/-- How far a publication has come. -/
inductive Stage where
  /-- Nothing has been done. -/
  | waiting
  /-- The current version and the session of the document have been taken; `sessions` tells which of
  the document's sessions it is. -/
  | captured (snapshot : Snapshot) (session : Session) (sessions : Nat)
  /-- The diagnostics have been found. -/
  | computed (version : Int) (items : Except SpanFault (List Marker))
  /-- The version has been found to be the current one, and the lock for publishing is held. Nothing
  is looked at again before the diagnostics are sent. -/
  | checked (version : Int) (items : List Marker)
  /-- Nothing is sent any more, and the lock is not held. -/
  | done (version : Int)

/-- A publication of a document's diagnostics that is under way. -/
structure Publication where
  serial : Nat
  uri : Text
  stage : Stage := .waiting

/-- Whether a publication holds the lock for publishing. -/
def Publication.isChecked (p : Publication) : Bool :=
  match p.stage with
  | .checked .. => true
  | _ => false

/-- The server's state. -/
structure Server where
  /-- Tells the results of this server apart from those of others. -/
  identity : Text
  /-- Whether the client wants to hear of changed tags. -/
  notifies : Bool := true
  documents : List OpenDocument := []
  dispatcher : Dispatcher := ⟨Analyzer.builtin⟩
  /-- How often the dispatcher has been replaced. -/
  generation : Int32 := 0
  settings : Settings := {}
  /-- The configuration file in the workspace's folder; empty when there is none. -/
  rootConfigFile : Text := []
  logLevel : LogLevel := .info
  isShutDown : Bool := false
  versions : VersionQueue := {}
  /-- The publications that are under way, the oldest first. -/
  publications : List Publication := []
  nextSerial : Nat := 0

namespace Server

variable (s : Server)

/-- The open document with a URI. -/
def find? (uri : Text) : Option OpenDocument := s.documents.find? fun d => d.uri == uri

/-- The open document with a serial number. -/
def findSerial? (serial : Nat) : Option OpenDocument :=
  s.documents.find? fun d => d.serial == serial

/-- The state with an open document replaced by another state of it. -/
def update (d : OpenDocument) : Server :=
  { s with documents := s.documents.map fun e => if e.serial == d.serial then d else e }

/-- The identifier of results for a version of a document under the current configuration. -/
def resultId (version : Int) : Text :=
  s.identity ++ utf8 "." ++ Text.ofInt s.generation.toInt ++ utf8 "." ++ Text.ofInt version

end Server

end RobotsTxt
