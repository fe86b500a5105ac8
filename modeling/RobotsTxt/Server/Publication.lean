import RobotsTxt.Server.Basic

/-!
# Publications

Diagnostics are published in the background. A publication takes the current version of its
document, finds the diagnostics, checks that the document is still open and has not changed since,
and sends them. From the check until it has sent them it holds a lock, so that two publications
never send at the same time. But documents are opened, changed and let go without the lock: what has
been checked may be out of date when it is sent.

* `Server.schedule`: starts a publication.
* `Server.advance`: one stage of a publication; `Server.step` does it to one of those under way, so
  that every order in which they may proceed is a list of steps.
* `Server.unlock`: waits for the lock.
* `Server.settle`: brings all of them to an end; `Server.settleInTurn` does so in the order of the
  work that they have to do.
-/

namespace RobotsTxt

namespace Publication

variable (p : Publication)

/-- The publication with the current version of its document taken. -/
def capture (d : OpenDocument) : Publication :=
  match p.stage with
  | .waiting => { p with stage := .captured d.snapshot d.session d.sessions }
  | _ => p

/-- The publication after the server has stopped listening to the session of a document, which may
be the one that the publication has taken. -/
def detach (d : OpenDocument) : Publication :=
  match p.stage with
  | .captured snapshot session sessions =>
    if p.serial == d.serial && sessions == d.sessions then
      { p with stage := .captured snapshot (session.unlisten d.listener) sessions }
    else p
  | _ => p

/-- The work that a publication still has to do: so often it calls an analyzer. -/
def work : Nat :=
  match p.stage with
  | .captured snapshot session _ =>
    let document := Document.parse snapshot.text
    (session.dispatcher.calls document ⟨0, snapshot.text.length⟩).length
  | _ => 0

end Publication

namespace Server

variable (s : Server)

/-- Starts a publication of a document's diagnostics. -/
def schedule (d : OpenDocument) : Server :=
  { s with publications := s.publications ++ [{ serial := d.serial, uri := d.uri }] }

/-- Lets a document go, and does not listen to its session any more. Publications that have not
looked at it yet will see it in its last state. -/
def release (d : OpenDocument) : Server :=
  { s with
    documents := s.documents.filter fun e => e.serial != d.serial
    publications := s.publications.map fun p =>
      if p.serial == d.serial then (p.capture d).detach d else p }

/-- Finds the diagnostics of a captured version. A document that still has the captured session
shares what the session learns. -/
def compute (serial : Nat) (snapshot : Snapshot) (session : Session) (sessions : Nat) :
    List Diagnostic × Server :=
  let span : Span := ⟨0, snapshot.text.length⟩
  match (s.findSerial? serial).filter fun d => d.sessions == sessions with
  | some d =>
    match d.session.analyze snapshot span with
    | (ds, session) => (ds, s.update { d with session })
  | none => ((session.analyze snapshot span).1, s)

/-- Whether a version of a document is still the current one of the document that is open. -/
def isCurrent (p : Publication) (version : Int) : Bool :=
  (s.find? p.uri).any fun d => d.serial == p.serial && d.version == version

/-- Whether a publication holds the lock. -/
def isPublishing : Bool := s.publications.any Publication.isChecked

/-- One stage of a publication: what is left of it, and what is sent. One that needs the lock while
another one holds it stays as it is. Whoever waits for its version hears of its end, whether it has
sent anything or not. -/
def advance (p : Publication) : Option Publication × List Message × Server :=
  match p.stage with
  | .waiting =>
    match s.findSerial? p.serial with
    | some d => (some (p.capture d), [], s)
    | none => (none, [], s)
  | .captured snapshot session sessions =>
    match s.compute p.serial snapshot session sessions with
    | (ds, s) =>
      (some { p with stage := .computed snapshot.version (markers snapshot.text ds) }, [], s)
  | .computed version (.error _) => (some { p with stage := .done version }, [], s)
  | .computed version (.ok items) =>
    if s.isPublishing then (some p, [], s)
    else if s.isCurrent p version then (some { p with stage := .checked version items }, [], s)
    else (some { p with stage := .done version }, [], s)
  | .checked version items =>
    (some { p with stage := .done version }, [.diagnostics p.uri version items], s)
  | .done version =>
    (none, [], { s with versions := (s.versions.update p.uri (.handled version)).2 })

/-- One stage of the publication at a given place. -/
def step (place : Nat) : List Message × Server :=
  match s.publications[place]? with
  | none => ([], s)
  | some p =>
    match s.advance p with
    | (some p, sent, s) => (sent, { s with publications := s.publications.set place p })
    | (none, sent, s) => (sent, { s with publications := s.publications.eraseIdx place })

/-- Waits for the lock: whoever holds it has only to send what it has checked. -/
def unlock : List Message × Server :=
  match s.publications.findIdx? Publication.isChecked with
  | some place => s.step place
  | none => ([], s)

/-- Some stages of a publication. -/
def finishIn : (stages : Nat) → Server → Publication → List Message × Server
  | 0, s, _ => ([], s)
  | n + 1, s, p =>
    match s.advance p with
    | (none, sent, s) => (sent, s)
    | (some p, sent, s) =>
      match finishIn n s p with
      | (more, s) => (sent ++ more, s)

/-- All stages of a publication, of which there are five. -/
def finish (p : Publication) : List Message × Server := finishIn 5 s p

/-- All stages of some publications, one after the other. -/
def finishAll : Server → List Publication → List Message × Server
  | s, [] => ([], s)
  | s, p :: ps =>
    match s.finish p with
    | (sent, s) =>
      match finishAll s ps with
      | (more, s) => (sent ++ more, s)

/-- Brings some publications to an end, one that holds the lock before the others. -/
def finishLocked (ps : List Publication) : List Message × Server :=
  match ps.partition Publication.isChecked with
  | (holding, others) => finishAll { s with publications := [] } (holding ++ others)

/-- Brings all publications to an end. -/
def settle : List Message × Server := s.finishLocked s.publications

/-- Lets all publications take the current versions of their documents. -/
def captureAll : Server :=
  { s with
    publications := s.publications.filterMap fun p =>
      match p.stage with
      | .waiting => (s.findSerial? p.serial).map p.capture
      | _ => some p }

/-- Brings all publications to an end. They proceed side by side, so that the one with the least
work ends first. -/
def settleInTurn : List Message × Server :=
  let measured := s.publications.map fun p => (p.work, p)
  let sorted := measured.mergeSort fun p q => p.1 ≤ q.1
  s.finishLocked (sorted.map Prod.snd)

end Server

end RobotsTxt
