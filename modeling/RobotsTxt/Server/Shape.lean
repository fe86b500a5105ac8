import RobotsTxt.Json.Basic
import RobotsTxt.Uri

/-!
# Shapes of parameters

What the parameters of a method must look like. A value may be left out or `null` everywhere, fields
that a shape does not name may be anything, and the names of fields may be spelled in any case.

* `Shape`: a description of values.
* `Shape.accepts`: whether a value fits.
-/

namespace RobotsTxt

/-- A description of JSON values. -/
inductive Shape where
  /-- Anything whose numbers are doubles. -/
  | any
  /-- Anything at all. -/
  | raw
  | text
  /-- The address of a document. -/
  | uri
  | truth
  /-- An integer of 32 bits. -/
  | int
  /-- A natural number of 32 bits. -/
  | count
  | double
  | list (item : Shape)
  /-- An object with given fields. -/
  | record (fields : List (String × Shape))
  /-- An object whose values all have one shape. -/
  | table (item : Shape)
  /-- An object whose names are addresses of documents and whose values all have one shape. -/
  | uriTable (item : Shape)
  /-- A value of one of several shapes. -/
  | oneOf (shapes : List Shape)
  /-- An object of the first shape if it has a given field, and of the second if not. -/
  | guarded (name : String) (present absent : Shape)

/-- Whether a text is the address of a document. -/
def Uri.isValid (t : Text) : Bool :=
  match Uri.canonical t with
  | .ok _ => true
  | .error _ => false

namespace Json

mutual

/-- Whether every number in a value is a double. -/
def isMeasured : Json → Bool
  | .number n => n.isDouble
  | .array items => areMeasured items
  | .object fields => fieldsMeasured fields
  | _ => true

/-- Whether every number in some values is a double. -/
def areMeasured : List Json → Bool
  | [] => true
  | j :: js => j.isMeasured && areMeasured js

/-- Whether every number in some fields is a double. -/
def fieldsMeasured : List (Text × Json) → Bool
  | [] => true
  | (_, j) :: fs => j.isMeasured && fieldsMeasured fs

end

/-- Whether a value is a number that satisfies a test. -/
def isNumber (p : Decimal → Bool) : Json → Bool
  | .number n => p n
  | _ => false

/-- Whether a value is a text that satisfies a test. -/
def isText (p : Text → Bool) : Json → Bool
  | .string t => p t
  | _ => false

end Json

namespace Shape

/-- Whether a decimal number is an integer of 32 bits. -/
def isInt (n : Decimal) : Bool := n.toInt?.any fun i => -0x80000000 ≤ i && i < 0x80000000

/-- Whether a decimal number is a natural number of 32 bits. -/
def isCount (n : Decimal) : Bool := n.toNat?.any fun i => i < 0x100000000

mutual

/-- **Whether a value has a shape.** -/
def accepts : Shape → Json → Bool
  | _, .null => true
  | .any, j => j.isMeasured
  | .raw, _ => true
  | .text, j => j.isText fun _ => true
  | .uri, j => j.isText Uri.isValid
  | .truth, .bool _ => true
  | .int, j => j.isNumber isInt
  | .count, j => j.isNumber isCount
  | .double, j => j.isNumber Decimal.isDouble
  | .list item, .array js => js.all fun j => item.accepts j
  | .record fields, .object fs => fs.all fun f => acceptsField fields f.1 f.2
  | .table item, .object fs => fs.all fun f => item.accepts f.2
  | .uriTable item, .object fs => fs.all fun f => Uri.isValid f.1 && item.accepts f.2
  | .oneOf shapes, j => acceptsOne shapes j
  | .guarded name yes no, .object fs =>
    fs.all (fun f => f.2.isMeasured) &&
      if fs.any fun f => f.1 == utf8 name then yes.accepts (.object fs) else no.accepts (.object fs)
  | _, _ => false

/-- Whether a value may stand under a name. -/
def acceptsField : List (String × Shape) → Text → Json → Bool
  | [], _, _ => true
  | (n, shape) :: fields, name, j =>
    if name.eqFold (utf8 n) then shape.accepts j else acceptsField fields name j

/-- Whether a value has one of some shapes. -/
def acceptsOne : List Shape → Json → Bool
  | [], _ => false
  | shape :: shapes, j => shape.accepts j || acceptsOne shapes j

end

end Shape

end RobotsTxt
