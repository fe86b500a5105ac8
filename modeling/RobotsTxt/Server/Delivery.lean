import RobotsTxt.Text.Bytes

/-!
# Delivery of messages

Messages are handled in the background, each by a task of its own. A task waits at the gate of the
message before it. The gate of a message opens when the message has been replied to, but the gate of
a long-lived request opens at once, so that it does not hold up the others.

* `Delivery`: the messages that have arrived, and how far each has come.
* `DeliveryEvent`: what can happen; `Delivery.step?`: what comes of it.
* `Delivery.run?`: a whole schedule.
* `Delivery.turns`: the order in which messages that have arrived together are handled.
-/

namespace RobotsTxt

/-- How far a message has come. -/
inductive Phase where
  | waiting
  | started
  | replied
  deriving Repr, DecidableEq

/-- The methods that are meant to be long-lived. -/
def isStreaming (method : Text) : Bool := method == utf8 "textDocument/diagnostic"

/-- A message that has arrived. -/
structure Delivered where
  method : Text
  phase : Phase := .waiting
  deriving Repr, DecidableEq

/-- Whether the gate of a message is open for the message after it. -/
def Delivered.opens (d : Delivered) : Bool := isStreaming d.method || d.phase == .replied

/-- The messages that have arrived, in the order of their arrival. -/
structure Delivery where
  messages : List Delivered := []
  deriving Repr, DecidableEq

/-- Something that happens to messages. -/
inductive DeliveryEvent where
  | arrive (method : Text)
  | start (place : Nat)
  | reply (place : Nat)
  deriving Repr, DecidableEq

namespace Delivery

variable (d : Delivery)

/-- Whether the gate at which the message at a place waits is open. Nothing comes before the first.
-/
def gateOpen : (place : Nat) → Bool
  | 0 => true
  | n + 1 => d.messages[n]?.any Delivered.opens

/-- The state with one more message, which comes after all others. -/
def arrive (method : Text) : Delivery := { messages := d.messages ++ [{ method }] }

/-- The state with the phase of one message changed. -/
def setPhase (place : Nat) (phase : Phase) : Delivery :=
  { messages := d.messages.modify place fun m => { m with phase } }

/-- The phase of the message at a place. -/
def phase? (place : Nat) : Option Phase := d.messages[place]?.map Delivered.phase

/-- Whether the message at a place waits at an open gate. -/
def canStart (place : Nat) : Bool := d.phase? place == some .waiting && d.gateOpen place

/-- What can happen next: none when the event is not possible now. -/
def step? : DeliveryEvent → Option Delivery
  | .arrive method => some (d.arrive method)
  | .start place => if d.canStart place then some (d.setPhase place .started) else none
  | .reply place =>
    if d.phase? place == some .started then some (d.setPhase place .replied) else none

/-- The state after a schedule: none when some event was not possible. -/
def run? : Delivery → List DeliveryEvent → Option Delivery
  | d, [] => some d
  | d, e :: es =>
    match d.step? e with
    | some d => run? d es
    | none => none

/-! ## Turns -/

/-- The state in which messages with some methods have arrived and nothing else has happened. -/
def arrived (methods : List Text) : Delivery := { messages := methods.map fun method => { method } }

/-- The places of the messages that can start. -/
def ready : List Nat := (List.range d.messages.length).filter d.canStart

/-- The places of some messages in the order of their replies. Messages at open gates are handled
side by side, so that of those that can start the one with the least work is replied to first. -/
def turnsIn (work : Nat → Nat) : (fuel : Nat) → Delivery → List Nat
  | 0, _ => []
  | fuel + 1, d =>
    match d.ready.minOn? work with
    | none => []
    | some place => place :: turnsIn work fuel (d.setPhase place .replied)

/-- The places of all messages in the order of their replies. -/
def turns (work : Nat → Nat) : List Nat := turnsIn work d.messages.length d

end Delivery

end RobotsTxt
