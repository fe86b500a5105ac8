import RobotsTxt.Number.Shortest
import RobotsTxt.Text.Case

/-!
# JSON values

The values that a client and the server exchange.

* `Json`: a value; numbers are kept exactly, texts as bytes.
* `Json.field?`: a field of an object, whose name may be spelled in any case.
* `Json.valuesOf`, `Json.updated`: all values under a name, and what a later one does to an earlier.
-/

namespace RobotsTxt

/-- A JSON value. An object has its fields in order, and may have several of one name. -/
inductive Json where
  | null
  | bool (b : Bool)
  | number (n : Decimal)
  | string (t : Text)
  | array (items : List Json)
  | object (fields : List (Text × Json))
  deriving Inhabited

/-- The value under a name: the one spelled exactly so, else the first that differs only in case. -/
def lookupFold {α : Type} (name : Text) (fields : List (Text × α)) : Option α :=
  match fields.lookup name with
  | some v => some v
  | none => (fields.find? fun f => f.1.eqFold name).map Prod.snd

namespace Json

/-- A field of an object. -/
def field? (j : Json) (name : String) : Option Json :=
  match j with
  | .object fields => lookupFold (utf8 name) fields
  | _ => none

/-- The values that an object has under a name in any case, in order. -/
def valuesOf (j : Json) (name : String) : List Json :=
  match j with
  | .object fields => (fields.filter fun f => f.1.eqFold (utf8 name)).map Prod.snd
  | _ => []

/-- What becomes of a value when another is given for it: `null` changes nothing, the fields of an
object are added to those that are there, and anything else takes its place. -/
def updated : Option Json → Json → Option Json
  | old?, .null => old?
  | some (.object old), .object new => some (.object (old ++ new))
  | _, new => some new

/-- The number `n`. -/
def ofInt (n : Int) : Json := .number (.ofInt n)

/-- A text from a string. -/
def ofString (s : String) : Json := .string (utf8 s)

/-- An object whose names are given as strings. -/
def ofFields (fields : List (String × Json)) : Json :=
  .object (fields.map fun f => (utf8 f.1, f.2))

/-- A field that is left out when there is no value. -/
def optional (name : String) : Option Json → List (String × Json)
  | some v => [(name, v)]
  | none => []

end Json

end RobotsTxt
