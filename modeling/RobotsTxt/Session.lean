import RobotsTxt.Category
import RobotsTxt.Change
import RobotsTxt.Dispatch
import RobotsTxt.Document.Grammar
import RobotsTxt.Highlight

/-!
# Sessions

A session answers questions about the versions of one document. It keeps the trees of the most
recent versions, so that each of them is read once, and announces to its listeners which span of a
new version has to be looked at again.

* `Session`: the trees that are kept, and the listeners.
* `Session.tree`: the tree of a version, kept or read anew.
* `Session.classify`, `Session.analyze`, `Session.highlightsAt`: questions about a version.
* `Session.applyEdit`: the impact of an edit, announced to the listeners.
-/

namespace RobotsTxt

/-- A change of a document from one version to another. -/
structure Edit where
  before : Snapshot
  after : Snapshot
  changes : List Change
  deriving Repr, DecidableEq

/-- The span of a version that has to be looked at again. -/
structure TagsChanged where
  version : Int
  span : Span
  deriving Repr, DecidableEq

/-- The state of a session. -/
structure Session where
  dispatcher : Dispatcher
  /-- How many trees are kept; at least one. -/
  retained : Nat := 2
  /-- The trees that are kept, one for a version. -/
  trees : List Tree := []
  /-- The versions of these trees, in ascending order. -/
  versions : List Int := []
  /-- How many trees have been read. -/
  reads : Nat := 0
  /-- The version that the last applied edit has led to. -/
  latestEdit? : Option Int := none
  /-- The numbers of the registered listeners, in the order of registration. -/
  listeners : List Nat := []
  nextListener : Nat := 0

namespace Session

/-- A new session that keeps a given number of trees, but at least one. -/
def create (dispatcher : Dispatcher) (retained : Int) : Session :=
  { dispatcher, retained := max retained.toNat 1 }

variable (s : Session)

/-- The versions whose trees are kept. -/
def cachedVersions : List Int := s.versions

/-- The kept tree of a version. -/
def kept? (version : Int) : Option Tree := s.trees.find? fun t => t.snapshot.version == version

/-- Puts a version in its place among ascending ones, unless it is there already. -/
def insertVersion (v : Int) : List Int → List Int
  | [] => [v]
  | u :: us =>
    if v < u then v :: u :: us
    else if v = u then u :: us
    else u :: insertVersion v us

/-- Gives up the oldest versions, and the trees of these, until only as many are left as are
retained. -/
def evict (retained : Nat) : List Tree → List Int → List Tree × List Int
  | trees, [] => (trees, [])
  | trees, v :: vs =>
    if retained < vs.length + 1 then evict retained (trees.filter (·.snapshot.version != v)) vs
    else (trees, v :: vs)

/-- Keeps a tree that has just been read, and gives up the oldest ones that are too many. -/
def keep (t : Tree) : Session :=
  let kept := evict s.retained (s.trees ++ [t]) (insertVersion t.snapshot.version s.versions)
  { s with trees := kept.1, versions := kept.2, reads := s.reads + 1 }

/-- The tree of a version. Only the version tells whether the tree is kept. -/
def tree (snapshot : Snapshot) : Tree × Session :=
  match s.kept? snapshot.version with
  | some t => (t, s)
  | none => (.parse snapshot, s.keep (.parse snapshot))

/-! ## Questions -/

/-- The classified tokens of a version that touch a range. -/
def classify (snapshot : Snapshot) (range : Span) : List Classification × Session :=
  match s.tree snapshot with
  | (t, s) => (t.root.classify range, s)

/-- The diagnostics of a version that touch a range. -/
def analyze (snapshot : Snapshot) (range : Span) : List Diagnostic × Session :=
  match s.tree snapshot with
  | (t, s) => (s.dispatcher.analyze t.root range, s)

/-- The highlights of a version at a caret. -/
def highlightsAt (snapshot : Snapshot) (caret : Int) : List Span × Session :=
  match s.tree snapshot with
  | (t, s) => (t.root.highlightsAt caret, s)

/-! ## Edits -/

/-- Registers a listener and gives its number. -/
def listen : Nat × Session :=
  (s.nextListener,
    { s with listeners := s.listeners ++ [s.nextListener], nextListener := s.nextListener + 1 })

/-- Removes a listener. Nothing happens when it is not registered. -/
def unlisten (listener : Nat) : Session :=
  { s with listeners := s.listeners.filter (· != listener) }

/-- Whether an edit leads to a version that is not newer than the one the last edit has led to. -/
def isStale (e : Edit) : Bool := s.latestEdit?.any fun latest => e.after.version ≤ latest

/-- The trees of both versions of an edit. -/
def editTrees (e : Edit) : Tree × Tree × Session :=
  match s.tree e.before with
  | (before, s) =>
    match s.tree e.after with
    | (after, s) => (before, after, s)

/-- **Applies an edit**: the event that it causes, if any, and the listeners that hear of it. A
stale edit is ignored. -/
def applyEdit (e : Edit) : (Option TagsChanged × List Nat) × Session :=
  if s.isStale e then ((none, []), s)
  else
    match { s with latestEdit? := some e.after.version }.editTrees e with
    | (before, after, s) =>
      match impact? before.root after.root e.changes with
      | some span => ((some ⟨e.after.version, span⟩, s.listeners), s)
      | none => ((none, []), s)

end Session

end RobotsTxt
