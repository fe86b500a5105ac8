import RobotsTxt.Json.Basic
import RobotsTxt.Text.Quoted

/-!
# Written JSON

* `Json.render`: a value as text, without any blanks.
-/

namespace RobotsTxt

/-- A character between quotes. What could be mistaken for markup is escaped as well. -/
def jsonRune (r : Rune) : Text :=
  if r.code == 0x22 || r.code == 0x5C then [0x5C, .ofNat r.code]
  else if r.code == 0x0A then utf8 "\\n"
  else if r.code == 0x0D then utf8 "\\r"
  else if r.code == 0x09 then utf8 "\\t"
  else if r.code < 0x20 || [0x26, 0x3C, 0x3E, 0x2028, 0x2029].contains r.code then
    utf8 "\\u" ++ hexDigits 4 r.code
  else encodeRune r.code

/-- A text between quotes. -/
def jsonText (t : Text) : Text := [0x22] ++ (runes t).flatMap jsonRune ++ [0x22]

/-- A number: its digits, and an exponent unless that is zero. -/
def jsonNumber (n : Decimal) : Text :=
  (if n.negative then utf8 "-" else []) ++ Text.ofNat n.digits ++
    if n.exponent = 0 then [] else utf8 "e" ++ Text.ofInt n.exponent

namespace Json

mutual

/-- A value as text. -/
def render : Json → Text
  | .null => utf8 "null"
  | .bool b => utf8 (if b then "true" else "false")
  | .number n => jsonNumber n
  | .string t => jsonText t
  | .array items => [0x5B] ++ [0x2C].intercalate (renderItems items) ++ [0x5D]
  | .object fields => [0x7B] ++ [0x2C].intercalate (renderFields fields) ++ [0x7D]

/-- The items of an array as texts. -/
def renderItems : List Json → List Text
  | [] => []
  | j :: js => j.render :: renderItems js

/-- The fields of an object as texts. -/
def renderFields : List (Text × Json) → List Text
  | [] => []
  | (name, j) :: fs => (jsonText name ++ [0x3A] ++ j.render) :: renderFields fs

end

end Json

end RobotsTxt
