import RobotsTxt.Text.Bytes

/-!
# Waiting for versions

Whoever wants to know when a version of a document has been dealt with, waits on a channel, and the
channel is closed when it is so. All who wait for one version of one document at a time share a
channel.

* `VersionQueue.wait`: the channel to wait on, unless the version has been reached.
* `VersionQueue.update`: what happens when a version has been dealt with or a document is closed;
  `VersionQueue.updateAll`: the same for several of them.
* `QueueRun`: a queue at work; `QueueRun.run?`: what comes of a sequence of waits and updates.
-/

namespace RobotsTxt

/-- What has happened to a document. -/
inductive Modification where
  /-- A version has been dealt with. -/
  | handled (version : Int)
  | closed
  deriving Repr, DecidableEq

/-- A channel that waits for a version of a document. -/
structure Waiting where
  uri : Text
  version : Int
  channel : Nat
  deriving Repr, DecidableEq

/-- The versions that have been reached, and the channels that are open. -/
structure VersionQueue where
  /-- The version that each document has reached. Every document stands once. -/
  reached : List (Text × Int) := []
  waiting : List Waiting := []
  nextChannel : Nat := 0
  deriving Repr, DecidableEq

/-- Whether a modification ends the wait for a version. -/
def Modification.ends (version : Int) : Modification → Bool
  | .closed => true
  | .handled v => version ≤ v

namespace VersionQueue

variable (q : VersionQueue)

/-- The version that a document has reached. -/
def reached? (uri : Text) : Option Int := q.reached.lookup uri

/-- The open channel for a version of a document. -/
def channel? (uri : Text) (version : Int) : Option Nat :=
  (q.waiting.find? fun w => w.uri == uri && w.version == version).map Waiting.channel

/-- The channel to wait on for a version of a document; none when it has been reached already. -/
def wait (uri : Text) (version : Int) : Option Nat × VersionQueue :=
  if (q.reached? uri).any (version ≤ ·) then (none, q)
  else match q.channel? uri version with
    | some channel => (some channel, q)
    | none =>
      (some q.nextChannel,
        { q with
          waiting := q.waiting ++ [⟨uri, version, q.nextChannel⟩]
          nextChannel := q.nextChannel + 1 })

/-- Whether a channel is still open. -/
def isOpen (channel : Nat) : Bool := q.waiting.any fun w => w.channel == channel

/-- The reached versions after a modification. They only grow until the document is closed. -/
def record (uri : Text) (m : Modification) : List (Text × Int) :=
  let others := q.reached.filter fun e => e.1 != uri
  match m with
  | .closed => others
  | .handled v => (uri, match q.reached? uri with
      | some r => max r v
      | none => v) :: others

/-- Takes note of a modification and gives the channels that it closes. -/
def update (uri : Text) (m : Modification) : List Nat × VersionQueue :=
  let hit (w : Waiting) : Bool := w.uri == uri && m.ends w.version
  ((q.waiting.filter hit).map Waiting.channel,
    { q with reached := q.record uri m, waiting := q.waiting.filter fun w => !hit w })

/-- Takes note of some modifications, one after another, and gives the channels that they close. -/
def updateAll : VersionQueue → List (Text × Modification) → List Nat × VersionQueue
  | q, [] => ([], q)
  | q, (uri, m) :: rest =>
    match q.update uri m with
    | (first, q) =>
      match updateAll q rest with
      | (others, q) => (first ++ others, q)

end VersionQueue

/-! ## A queue at work -/

/-- What is done with a queue. -/
inductive QueueAction where
  /-- Someone begins to wait for a version of a document. -/
  | wait (uri : Text) (version : Int)
  | update (modifications : List (Text × Modification))
  deriving Repr, DecidableEq

/-- A queue, and the channels that have been closed so far. -/
structure QueueRun where
  queue : VersionQueue := {}
  closed : List Nat := []
  deriving Repr, DecidableEq

namespace QueueRun

/-- Closes channels one after another: none when a channel is closed that was closed before, which
breaks the program off. -/
def close? (r : QueueRun) : List Nat → Option QueueRun
  | [] => some r
  | c :: cs => if c ∈ r.closed then none else close? { r with closed := r.closed ++ [c] } cs

/-- What comes of one action. -/
def step? (r : QueueRun) : QueueAction → Option QueueRun
  | .wait uri version => some { r with queue := (r.queue.wait uri version).2 }
  | .update ms =>
    match r.queue.updateAll ms with
    | (channels, queue) => close? { r with queue } channels

/-- What comes of some actions, one after another: none when the program breaks off. -/
def run? : QueueRun → List QueueAction → Option QueueRun
  | r, [] => some r
  | r, a :: as =>
    match r.step? a with
    | some r => run? r as
    | none => none

end QueueRun

end RobotsTxt
