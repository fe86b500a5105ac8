import RobotsTxt.Server.Basic

/-!
# Operations

An operation changes the server's state step by step, and may be refused on the way. What it has
done before it is refused stays done: nothing puts the earlier state back.

* `Operation`: the steps.
* `Server.perform`: the outcome of an operation and the state that it leaves.
-/

namespace RobotsTxt

/-- Steps that change the server's state, up to the first one that is refused. -/
abbrev Operation (α : Type) := ExceptT Fault (StateM Server) α

/-- A step that only finds something out, and is refused when that fails. -/
def Operation.ofExcept {ε α : Type} (refusal : ε → Fault) : Except ε α → Operation α
  | .ok a => pure a
  | .error e => throw (refusal e)

/-- **The outcome of an operation, and the state that it leaves**, whether it has been refused or
not. -/
def Server.perform {α : Type} (s : Server) (op : Operation α) : Except Fault α × Server :=
  (ExceptT.run op).run s

end RobotsTxt
