import RobotsTxt.Number.Double
import RobotsTxt.Yaml.Cursor
import RobotsTxt.Yaml.Moment

/-!
# What a scalar stands for

A plain scalar without a tag stands for a null, a truth value, a number or a date when it is spelled
like one, and for a text otherwise.

* `Yaml.plainTag`: the tag of a plain scalar.
* `Yaml.Resolved`: what a scalar stands for.
* `Yaml.resolve?`: the same for a scalar with a given tag; none when the tag does not fit its
  spelling.
-/

namespace RobotsTxt.Yaml

/-! ## Spellings -/

/-- The spellings of null. -/
def isNullWord (t : Text) : Bool := ["", "~", "null", "Null", "NULL"].any fun w => utf8 w == t

/-- The truth value that a word spells. -/
def truthWord? (t : Text) : Option Bool :=
  if ["true", "True", "TRUE"].any fun w => utf8 w == t then some true
  else if ["false", "False", "FALSE"].any fun w => utf8 w == t then some false
  else none

/-- The truth value that a text stands for where a truth value is asked for. -/
def answerWord? (t : Text) : Option Bool :=
  if ["y", "Y", "yes", "Yes", "YES", "on", "On", "ON"].any fun w => utf8 w == t then some true
  else if ["n", "N", "no", "No", "NO", "off", "Off", "OFF"].any fun w => utf8 w == t then some false
  else none

/-- The numbers that have no digits. -/
def specialNumber? (t : Text) : Option Double :=
  if [".nan", ".NaN", ".NAN"].any fun w => utf8 w == t then some .notANumber
  else if [".inf", ".Inf", ".INF", "+.inf", "+.Inf", "+.INF"].any fun w => utf8 w == t then
    some (.infinite false)
  else if ["-.inf", "-.Inf", "-.INF"].any fun w => utf8 w == t then some (.infinite true)
  else none

/-! ## Numbers -/

/-- Whether a text spells a double that is not too large. -/
def isDouble (t : Text) : Bool :=
  match Numeral.read? t with
  | some (.finite _ mantissa base exponent) =>
    !Numeral.overflows (Numeral.ratio mantissa base exponent)
  | some _ => true
  | none => false

/-- The value of digits whose base their beginning tells. -/
def prefixedNat? (t : Text) : Option Nat :=
  match t with
  | [0x30] => some 0
  | 0x30 :: x :: rest =>
    match lowerByte x with
    | 0x78 => natOf? 16 rest
    | 0x62 => natOf? 2 rest
    | 0x6F => natOf? 8 rest
    | _ => natOf? 8 (x :: rest)
  | _ => natOf? 10 t

/-- Whether a natural number, with a sign or without, fits into 64 bits. -/
def fits64 (signed negative : Bool) (n : Nat) : Bool :=
  if negative then n ≤ 0x8000000000000000
  else if signed then n < 0x8000000000000000
  else n < 0x10000000000000000

/-- The integer of 64 bits that a text spells, whose digits are read by `value?`. -/
def signed? (value? : Text → Option Nat) (t : Text) : Option Int :=
  let signed := t.head?.any fun b => b == 0x2B || b == 0x2D
  match Numeral.takeSign t with
  | (negative, digits) =>
    ((value? digits).filter (fits64 signed negative)).map fun n =>
      if negative then -(n : Int) else n

/-- The integer of a text with a sign between the mark of its base and its digits. -/
def innerSigned? (t : Text) : Option Int :=
  match t with
  | 0x30 :: 0x62 :: rest => signed? (natOf? 2) rest
  | 0x30 :: 0x6F :: rest => signed? (natOf? 8) rest
  | _ => none

/-- The integer of 64 bits that a text spells. Underscores do not count. -/
def integer? (t : Text) : Option Int :=
  let plain := t.filter (· != 0x5F)
  signed? prefixedNat? plain <|> innerSigned? plain

/-- Whether a text spells a decimal number with an optional fraction and exponent. -/
def isDecimal (t : Text) : Bool :=
  match Numeral.takeSign t with
  | (_, body) =>
    match Numeral.splitDigits false body with
    | (whole, fraction, rest) =>
      !(whole.isEmpty && fraction.isEmpty) && (Numeral.readExponent? false rest).isSome &&
        isDouble t

/-- The double that a text spells. Underscores do not count, unless it starts with a point. -/
def double? (t : Text) : Option Double :=
  let digits := if t.head? == some 0x2E then t else t.filter (· != 0x5F)
  specialNumber? t <|> (Numeral.read? digits).map Numeral.nearest

/-! ## Tags -/

def strTag : Text := utf8 "!!str"
def intTag : Text := utf8 "!!int"
def floatTag : Text := utf8 "!!float"
def boolTag : Text := utf8 "!!bool"
def nullTag : Text := utf8 "!!null"
def timestampTag : Text := utf8 "!!timestamp"
def binaryTag : Text := utf8 "!!binary"
def mergeTag : Text := utf8 "!!merge"
def seqTag : Text := utf8 "!!seq"
def mapTag : Text := utf8 "!!map"

/-- The short form of a tag. -/
def shortTag (t : Text) : Text :=
  let core := utf8 "tag:yaml.org,2002:"
  if core.isPrefixOf t then utf8 "!!" ++ t.drop core.length else t

/-- The tag of a plain scalar that starts like a number. -/
def numberTag (t : Text) : Text :=
  if (moment? t).isSome then timestampTag
  else if (integer? t).isSome then intTag
  else if isDecimal (t.filter (· != 0x5F)) then floatTag
  else strTag

/-- **The tag of a plain scalar.** -/
def plainTag (t : Text) : Text :=
  if isNullWord t then nullTag
  else if (truthWord? t).isSome then boolTag
  else if (specialNumber? t).isSome then floatTag
  else match t.head? with
    | some 0x2E => if isDouble t then floatTag else strTag
    | some b => if isDigit b || b == 0x2B || b == 0x2D then numberTag t else strTag
    | none => nullTag

/-- The tag that a scalar ends up with. -/
def scalarTag (tag? : Option Text) (plain : Bool) (content : Text) : Text :=
  match tag?.filter (· != utf8 "!") with
  | some t => shortTag t
  | none =>
    if !plain then strTag
    else if content == utf8 "<<" then mergeTag
    else plainTag content

/-! ## Binary data -/

/-- The value of a digit of base 64. -/
def base64Value? (b : UInt8) : Option Nat :=
  if 0x41 ≤ b && b ≤ 0x5A then some (b.toNat - 0x41)
  else if 0x61 ≤ b && b ≤ 0x7A then some (b.toNat - 0x61 + 26)
  else if isDigit b then some (b.toNat - 0x30 + 52)
  else if b == 0x2B then some 62
  else if b == 0x2F then some 63
  else none

/-- The bytes of digits of base 64, in groups of four, of which the last may be filled up with equal
signs. -/
def base64Bytes? : Text → Option Text
  | [] => some []
  | [a, b, 0x3D, 0x3D] => do
    let n := (← base64Value? a) * 64 + (← base64Value? b)
    return [.ofNat (n / 16)]
  | [a, b, c, 0x3D] => do
    let n := ((← base64Value? a) * 64 + (← base64Value? b)) * 64 + (← base64Value? c)
    return [.ofNat (n / 1024), .ofNat (n / 4)]
  | a :: b :: c :: d :: t => do
    let high := (← base64Value? a) * 64 + (← base64Value? b)
    let n := (high * 64 + (← base64Value? c)) * 64 + (← base64Value? d)
    return [.ofNat (n / 65536), .ofNat (n / 256), .ofNat n] ++ (← base64Bytes? t)
  | _ => none

/-- The bytes that a text in base 64 stands for. Line breaks do not count. -/
def base64? (t : Text) : Option Text := base64Bytes? (t.filter fun b => b != 0x0A && b != 0x0D)

/-! ## Values -/

/-- What a scalar stands for. -/
inductive Resolved where
  | null
  | truth (b : Bool)
  | integer (n : Int)
  | text (t : Text)
  /-- A number with a fraction. -/
  | number (x : Double)
  | moment (m : Moment)
  deriving Repr, DecidableEq

/-- The tags that ask for a spelling. -/
def spellingTags : List Text := [boolTag, intTag, floatTag, nullTag, timestampTag]

/-- What a scalar that is spelled as its tag asks stands for. -/
def spelled? (tag content : Text) : Option Resolved :=
  if tag == nullTag then some .null
  else if tag == boolTag then (truthWord? content).map .truth
  else if tag == intTag then (integer? content).map .integer
  else if tag == floatTag then (double? content).map .number
  else (moment? content).map .moment

/-- What a scalar with a given tag stands for; none when the tag asks for another spelling. A tag
that asks for none leaves the content as it is. An integer may stand for a number with a fraction
if it fits into 64 bits with a sign. -/
def resolve? (tag content : Text) : Option Resolved :=
  if tag == binaryTag then (base64? content).map .text
  else if !spellingTags.contains tag then some (.text content)
  else
    let plain := plainTag content
    if tag == plain then spelled? tag content
    else if tag == floatTag && plain == intTag then
      ((integer? content).filter (· < 0x8000000000000000)).map fun n => .number (.ofInt n)
    else none

end RobotsTxt.Yaml
