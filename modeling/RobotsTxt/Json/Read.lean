import RobotsTxt.Json.Basic
import RobotsTxt.Number.Numeral
import RobotsTxt.Text.Quoted
import RobotsTxt.Text.Space

/-!
# Reading JSON

A value is read from the first byte to the last, and the first character that cannot stand where it
stands is reported.

* `Json.Place`: where a character cannot stand; `Json.SyntaxFault`: why a text is no value.
* `Json.read`: the value that a text spells.
* `Json.distinct`: a value in which later fields have taken the place of earlier ones.
-/

namespace RobotsTxt.Json

/-! ## Faults -/

/-- Where a character stands that cannot stand there. -/
inductive Place where
  | topLevel
  | value
  | name
  | afterName
  | afterField
  | afterItem
  | text
  | number
  | word (spelling : String) (expected : UInt8)
  deriving Repr, DecidableEq

/-- The wording of a place. -/
def Place.wording : Place → Text
  | .topLevel => utf8 "after top-level value"
  | .value => utf8 "looking for beginning of value"
  | .name => utf8 "looking for beginning of object key string"
  | .afterName => utf8 "after object key"
  | .afterField => utf8 "after object key:value pair"
  | .afterItem => utf8 "after array element"
  | .text => utf8 "in string"
  | .number => utf8 "in numeric literal"
  | .word spelling expected =>
    utf8 "in literal " ++ utf8 spelling ++ utf8 " (expecting " ++ quoteByte expected ++ utf8 ")"

/-- Why a text is no value. -/
inductive SyntaxFault where
  | incomplete
  | misplaced (r : Rune) (place : Place)
  /-- A backslash with what follows it, which stand for no character. -/
  | badEscape (written : Text)
  | tooDeep
  deriving Repr, DecidableEq

/-- A text between backquotes, or between double quotes if not all of it can be seen there. -/
def fenced (t : Text) : Text :=
  let isHidden (c : Nat) : Bool :=
    c == 0x60 || c == Rune.replacement || isSpace c || !isPrintable c
  if (runes t).any fun r => isHidden r.code then t.quote else [0x60] ++ t ++ [0x60]

/-- The wording of a fault. -/
def SyntaxFault.message : SyntaxFault → Text
  | .incomplete => utf8 "unexpected end of JSON input"
  | .misplaced r place => utf8 "invalid character " ++ r.quote ++ utf8 " " ++ place.wording
  | .badEscape written => utf8 "invalid escape sequence " ++ fenced written ++ utf8 " in string"
  | .tooDeep => utf8 "exceeded max depth"

/-- A part of a value that has been read, and what follows it. -/
abbrev Reading (α : Type) := Except SyntaxFault (α × Text)

/-- Refuses the character at the start of a text. -/
def refuse {α : Type} (place : Place) : Text → Except SyntaxFault α
  | [] => .error .incomplete
  | b :: t => .error (.misplaced (Rune.read b t) place)

/-- The blanks between the parts of a value. -/
def isGap (b : UInt8) : Bool := b == 0x20 || b == 0x09 || b == 0x0A || b == 0x0D

/-- A text without the blanks at its start. -/
def skipGap (t : Text) : Text := t.dropWhile isGap

/-! ## Texts -/

/-- The value of the four hexadecimal digits at the start of a text, which follows `\u`. -/
def codeUnit (t : Text) : Reading Nat :=
  let digits := t.take 4
  if !digits.all fun b => (hexValue? b).isSome then .error (.badEscape (utf8 "\\u" ++ digits))
  else if digits.length < 4 then .error .incomplete
  else .ok (Numeral.digitsValue 16 digits, t.drop 4)

/-- The character that a single letter stands for after a backslash. -/
def escape? : UInt8 → Option UInt8
  | 0x22 => some 0x22
  | 0x5C => some 0x5C
  | 0x2F => some 0x2F
  | 0x62 => some 0x08
  | 0x66 => some 0x0C
  | 0x6E => some 0x0A
  | 0x72 => some 0x0D
  | 0x74 => some 0x09
  | _ => none

/-- Whether a number is the first, or the second, half of a pair of surrogates. -/
def isSurrogate (second : Bool) (n : Nat) : Bool :=
  if second then 0xDC00 ≤ n && n < 0xE000 else 0xD800 ≤ n && n < 0xDC00

/-- The second half of a pair of surrogates at the start of a text, and what follows it. -/
def secondHalf? : Text → Option (Nat × Text)
  | 0x5C :: 0x75 :: t =>
    match codeUnit t with
    | .ok (n, rest) => if isSurrogate true n then some (n, rest) else none
    | .error _ => none
  | _ => none

/-- The characters that `\u` and what follows it stand for. A half of a pair without the other
stands for U+FFFD. -/
def codeEscape (t : Text) : Except SyntaxFault (Text × Text) := do
  let (n, rest) ← codeUnit t
  if isSurrogate false n then
    match secondHalf? rest with
    | some (k, after) =>
      return (encodeRune (0x10000 + (n - 0xD800) * 0x400 + (k - 0xDC00)), after)
    | none => return (encodeRune Rune.replacement, rest)
  return (encodeRune n, rest)

/-- The text up to the closing quote, where `done` has been read, in reverse. -/
def textBody : (fuel : Nat) → (done : Text) → Text → Reading Text
  | 0, _, _ | _ + 1, _, [] => .error .incomplete
  | _ + 1, done, 0x22 :: t => .ok (done.reverse, t)
  | fuel + 1, done, 0x5C :: 0x75 :: t =>
    match codeEscape t with
    | .ok (c, rest) => textBody fuel (c.reverse ++ done) rest
    | .error e => .error e
  | fuel + 1, done, 0x5C :: t =>
    match t with
    | [] => .error .incomplete
    | b :: rest =>
      match escape? b with
      | some c => textBody fuel (c :: done) rest
      | none => .error (.badEscape [0x5C, b])
  | fuel + 1, done, b :: t =>
    if b < 0x20 then refuse .text (b :: t) else textBody fuel (b :: done) t

/-- The text with every stray byte replaced by U+FFFD. -/
def mended (t : Text) : Text := (runes t).flatMap fun r => encodeRune r.code

/-- The text after an opening quote. -/
def textAfterQuote (t : Text) : Reading Text :=
  (textBody (t.length + 1) [] t).map fun (s, rest) => (mended s, rest)

/-! ## Numbers -/

/-- Digits, of which there is at least one. -/
def digits (t : Text) : Reading Text :=
  match t.span isDigit with
  | ([], rest) => refuse .number rest
  | split => .ok split

/-- The whole part of a number, which starts with a zero only if it is one. -/
def wholePart : Text → Reading Text
  | 0x30 :: t => .ok ([0x30], t)
  | t => digits t

/-- The fraction of a number; none when it has no point. -/
def fraction : Text → Reading (Option Text)
  | 0x2E :: t => (digits t).map fun (ds, rest) => (some ds, rest)
  | t => .ok (none, t)

/-- The exponent of a number; none when it has no mark. -/
def exponent : Text → Reading (Option Int)
  | [] => .ok (none, [])
  | b :: t =>
    if b == 0x65 || b == 0x45 then
      match Numeral.takeSign t with
      | (negative, t) => (digits t).map fun (ds, rest) =>
        let e : Int := Numeral.exponentValue ds
        (some (if negative then -e else e), rest)
    else .ok (none, b :: t)

/-- A number. -/
def readNumber (t : Text) : Except SyntaxFault (Decimal × Text) := do
  let negative := t.head? == some 0x2D
  let (whole, rest) ← wholePart (if negative then t.drop 1 else t)
  let (fraction?, rest) ← fraction rest
  let (exponent?, rest) ← exponent rest
  let fraction := fraction?.getD []
  return (
    { negative
      digits := Numeral.digitsValue 10 (whole ++ fraction)
      exponent := exponent?.getD 0 - fraction.length
      plain := fraction?.isNone && exponent?.isNone
      spelling := t.take (t.length - rest.length) }, rest)

/-! ## Values -/

/-- The rest of a word. -/
def wordRest (word : String) (j : Json) : (expected : Text) → Text → Reading Json
  | [], t => .ok (j, t)
  | _ :: _, [] => .error .incomplete
  | e :: es, b :: t =>
    if b == e then wordRest word j es t else refuse (.word word e) (b :: t)

/-- How deep values may be nested. -/
def depthLimit : Nat := 10000

mutual

/-- A value, inside `depth` others. -/
def value : (fuel depth : Nat) → Text → Reading Json
  | 0, _, _ => .error .incomplete
  | fuel + 1, depth, t =>
    match skipGap t with
    | 0x22 :: t => (textAfterQuote t).map fun (s, rest) => (.string s, rest)
    | 0x5B :: t =>
      if depthLimit ≤ depth then .error .tooDeep
      else match skipGap t with
        | 0x5D :: rest => .ok (.array [], rest)
        | t => items fuel (depth + 1) [] t
    | 0x7B :: t =>
      if depthLimit ≤ depth then .error .tooDeep
      else match skipGap t with
        | 0x7D :: rest => .ok (.object [], rest)
        | t => fields fuel (depth + 1) [] t
    | 0x74 :: t => wordRest "true" (.bool true) (utf8 "rue") t
    | 0x66 :: t => wordRest "false" (.bool false) (utf8 "alse") t
    | 0x6E :: t => wordRest "null" .null (utf8 "ull") t
    | t =>
      if t.head?.any fun b => b == 0x2D || isDigit b then
        (readNumber t).map fun (n, rest) => (.number n, rest)
      else refuse .value t

/-- The rest of an array, after some items in reverse. -/
def items : (fuel depth : Nat) → (done : List Json) → Text → Reading Json
  | 0, _, _, _ => .error .incomplete
  | fuel + 1, depth, done, t =>
    match value fuel depth t with
    | .error e => .error e
    | .ok (v, rest) =>
      match skipGap rest with
      | 0x2C :: rest => items fuel depth (v :: done) rest
      | 0x5D :: rest => .ok (.array (v :: done).reverse, rest)
      | rest => refuse .afterItem rest

/-- The rest of an object, after some fields in reverse. -/
def fields : (fuel depth : Nat) → (done : List (Text × Json)) → Text → Reading Json
  | 0, _, _, _ => .error .incomplete
  | fuel + 1, depth, done, t =>
    match skipGap t with
    | 0x22 :: t =>
      match textAfterQuote t with
      | .error e => .error e
      | .ok (name, rest) =>
        match skipGap rest with
        | 0x3A :: rest =>
          match value fuel depth rest with
          | .error e => .error e
          | .ok (v, rest) =>
            match skipGap rest with
            | 0x2C :: rest => fields fuel depth ((name, v) :: done) rest
            | 0x7D :: rest => .ok (.object ((name, v) :: done).reverse, rest)
            | rest => refuse .afterField rest
        | rest => refuse .afterName rest
    | t => refuse .name t

end

/-- **The value that a text spells.** Every part of a value takes at least one byte, so twice the
length bounds how deep the reading goes. -/
def read (t : Text) : Except SyntaxFault Json :=
  match value (2 * t.length + 2) 0 t with
  | .error e => .error e
  | .ok (v, rest) =>
    match skipGap rest with
    | [] => .ok v
    | rest => refuse .topLevel rest

/-! ## Repeated names -/

/-- Sets a field, which takes the place of an earlier one of the same name. -/
def setField (fields : List (Text × Json)) (name : Text) (v : Json) : List (Text × Json) :=
  fields.filter (fun f => f.1 != name) ++ [(name, v)]

mutual

/-- The value with only the last field of each name. -/
def distinct : Json → Json
  | .array items => .array (distinctItems items)
  | .object fields => .object (distinctFields [] fields)
  | j => j

/-- The items of an array, each with only the last field of each name. -/
def distinctItems : List Json → List Json
  | [] => []
  | j :: js => j.distinct :: distinctItems js

/-- The last field of each name, where `done` holds those of earlier fields. -/
def distinctFields (done : List (Text × Json)) : List (Text × Json) → List (Text × Json)
  | [] => done
  | (name, j) :: fs => distinctFields (setField done name j.distinct) fs

end

end RobotsTxt.Json
