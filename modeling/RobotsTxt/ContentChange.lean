import RobotsTxt.Change
import RobotsTxt.Position

/-!
# Content changes

An editor reports what has been typed as a list of content changes, each of which replaces a range
of the text so far, or the whole of it.

* `ContentChange.apply`: one change.
* `textChange`: the shortest single replacement that turns one text into another.
* `changedText`: the text after a list of changes, with a single change that describes them all.
-/

namespace RobotsTxt

/-- A replacement of a range, or of the whole text when there is no range. -/
structure ContentChange where
  range? : Option Range
  text : Text
  deriving Repr, DecidableEq

/-- Why content changes cannot be applied. -/
inductive ContentFault where
  | noChanges
  | range (fault : RangeFault)
  deriving Repr, DecidableEq

/-- The text with the bytes between two offsets replaced. -/
def Text.splice (t : Text) (start stop : Nat) (new : Text) : Text :=
  t.take start ++ new ++ t.drop stop

namespace ContentChange

/-- The text after a change. -/
def apply (t : Text) (c : ContentChange) : Except ContentFault Text :=
  match c.range? with
  | none => .ok c.text
  | some r =>
    match t.offsetsOf r with
    | .error e => .error (.range e)
    | .ok (start, stop) => .ok (t.splice start stop c.text)

/-- The text after a list of changes, each of which refers to the text that the ones before it have
made. -/
def applyAll (t : Text) : List ContentChange → Except ContentFault Text
  | [] => .ok t
  | c :: cs =>
    match c.apply t with
    | .error e => .error e
    | .ok t' => applyAll t' cs

end ContentChange

/-- The length of the longest common beginning of two lists. -/
def commonLength {α : Type} [BEq α] : List α → List α → Nat
  | a :: s, b :: t => if a == b then commonLength s t + 1 else 0
  | _, _ => 0

/-- The shortest replacement that turns one text into another. -/
def textChange (before after : Text) : Change :=
  let start := commonLength before after
  let tail := commonLength (before.drop start).reverse (after.drop start).reverse
  ⟨⟨start, (before.length : Int) - tail⟩, ⟨start, (after.length : Int) - tail⟩⟩

/-- **The text after some changes, and a single change that describes them.** A change of a single
range is described exactly; anything else by the shortest replacement. -/
def changedText (base : Text) (changes : List ContentChange) :
    Except ContentFault (Text × Change) :=
  match changes with
  | [] => .error .noChanges
  | [⟨some r, new⟩] =>
    match base.offsetsOf r with
    | .error e => .error (.range e)
    | .ok (start, stop) =>
      .ok (base.splice start stop new, ⟨⟨start, stop⟩, ⟨start, (start : Int) + new.length⟩⟩)
  | changes =>
    match ContentChange.applyAll base changes with
    | .error e => .error e
    | .ok text => .ok (text, textChange base text)

end RobotsTxt
