import RobotsTxt.Text.Bytes

/-!
# Numerals

The written forms of a number: decimal digits with an optional fraction and exponent, hexadecimal
digits after `0x` with a binary exponent, and the words for infinity and for no number at all. An
underscore may stand between two digits and after `0x`.

* `Numeral`: what is written, with its exact value.
* `Numeral.read?`: the numeral that a text spells.
* `Numeral.ratio`: the exact magnitude as a quotient.
* `Numeral.isDelay`: whether the nearest double is a number from zero up.
-/

namespace RobotsTxt

/-- What a text says about a number. -/
inductive Numeral where
  /-- `mantissa * base ^ exponent`, with its sign. -/
  | finite (negative : Bool) (mantissa base : Nat) (exponent : Int)
  | infinite (negative : Bool)
  | notANumber
  deriving Repr, DecidableEq

namespace Numeral

/-! ## Reading -/

/-- The sign of a numeral and the text after it. -/
def takeSign : Text → Bool × Text
  | 0x2D :: t => (true, t)
  | 0x2B :: t => (false, t)
  | t => (false, t)

/-- Whether a numeral without its sign is hexadecimal. -/
def isHex : Text → Bool
  | 0x30 :: x :: _ :: _ => lowerByte x == 0x78
  | _ => false

/-- The digits of a base: ten or sixteen. -/
def isDigitOf (hex : Bool) (b : UInt8) : Bool := if hex then (hexValue? b).isSome else isDigit b

/-- The value of digits in a base. -/
def digitsValue (base : Nat) (digits : Text) : Nat :=
  digits.foldl (fun n b => n * base + (hexValue? b).getD 0) 0

/-- What stands before a character of a numeral, as far as underscores are concerned. -/
inductive Before where
  | start
  | digit
  | underscore
  | mark
  deriving Repr, DecidableEq

/-- Whether every underscore stands between two digits, where `before` precedes the text. -/
def underscoresOk (hex : Bool) : (before : Before) → Text → Bool
  | before, [] => before != .underscore
  | before, b :: t =>
    if isDigitOf hex b then underscoresOk hex .digit t
    else if b == 0x5F then before == .digit && underscoresOk hex .underscore t
    else before != .underscore && underscoresOk hex .mark t

/-- The value of the digits of an exponent. Past four digits the rest no longer counts: the number
is out of every range anyway. -/
def exponentValue (digits : Text) : Nat :=
  digits.foldl (fun e b => if e < 10000 then e * 10 + (b.toNat - 0x30) else e) 0

/-- The exponent that ends a numeral. A hexadecimal numeral needs one. -/
def readExponent? (hex : Bool) : Text → Option Int
  | [] => if hex then none else some 0
  | mark :: t =>
    if lowerByte mark == (if hex then 0x70 else 0x65) then
      match takeSign t with
      | (_, []) => none
      | (negative, digits) =>
        if digits.all isDigit then
          some (if negative then -(exponentValue digits : Int) else exponentValue digits)
        else none
    else none

/-- The digits before and after the point, and what follows them. -/
def splitDigits (hex : Bool) (t : Text) : Text × Text × Text :=
  match t.span (isDigitOf hex) with
  | (whole, 0x2E :: t') => match t'.span (isDigitOf hex) with
    | (fraction, rest) => (whole, fraction, rest)
  | (whole, rest) => (whole, [], rest)

/-- The numeral of an unsigned text without underscores. -/
def readBody? (negative hex : Bool) (t : Text) : Option Numeral :=
  match splitDigits hex t with
  | (whole, fraction, rest) =>
    if whole.isEmpty && fraction.isEmpty then none
    else (readExponent? hex rest).map fun e =>
      let mantissa := digitsValue (if hex then 16 else 10) (whole ++ fraction)
      if hex then .finite negative mantissa 2 (e - 4 * fraction.length)
      else .finite negative mantissa 10 (e - fraction.length)

/-- The numeral of digits. -/
def readDigits? (t : Text) : Option Numeral :=
  match takeSign t with
  | (negative, body) =>
    let hex := isHex body
    let digits := if hex then body.drop 2 else body
    if underscoresOk hex (if hex then .digit else .start) digits then
      readBody? negative hex (digits.filter (· != 0x5F))
    else none

/-- **The numeral that a text spells**, from its first to its last byte. -/
def read? (t : Text) : Option Numeral :=
  match takeSign t with
  | (negative, word) =>
    let word := word.map lowerByte
    if word == utf8 "inf" || word == utf8 "infinity" then some (.infinite negative)
    else if t.map lowerByte == utf8 "nan" then some .notANumber
    else readDigits? t

/-! ## Magnitude -/

/-- The quotient `mantissa * base ^ exponent`, as a numerator and a denominator. -/
def ratio (mantissa base : Nat) : (exponent : Int) → Nat × Nat
  | .ofNat e => (mantissa * Nat.pow base e, 1)
  | .negSucc e => (mantissa, Nat.pow base (e + 1))

/-- The least magnitude that rounds to no finite double. -/
def overflowBound : Nat := Nat.pow 2 1024 - Nat.pow 2 970

/-- Whether a magnitude is too large for a double. -/
def overflows (q : Nat × Nat) : Bool := overflowBound * q.2 ≤ q.1

/-- Whether a magnitude is so small that its nearest double is zero. -/
def vanishes (q : Nat × Nat) : Bool := q.1 * Nat.pow 2 1075 ≤ q.2

/-- Whether the nearest double is a number from zero up. A negative number passes when it rounds to
zero, and infinity passes when it is written as a word. -/
def isDelay : Numeral → Bool
  | .finite negative mantissa base exponent =>
    let q := ratio mantissa base exponent
    if negative then vanishes q else !overflows q
  | .infinite negative => !negative
  | .notANumber => false

end Numeral

end RobotsTxt
