import RobotsTxt.Number.Numeral

/-!
# Shortest decimals

A positive rational number is rounded to the nearest double, and a double is written with the fewest
digits that read back as the same double.

* `Binary64.round`: the nearest double, ties to the even mantissa.
* `Binary64.shortest`: the fewest digits, and of those the nearest.
* `Decimal.written`: a decimal number as its nearest double is written in messages.
-/

namespace RobotsTxt

/-- A positive double `mantissa * 2 ^ exponent`, with a mantissa below `2 ^ 53` and an exponent from
`-1074` up. -/
structure Binary64 where
  mantissa : Nat
  exponent : Int
  deriving Repr, DecidableEq

namespace Binary64

/-- The quotient of two naturals, rounded to the nearest natural, ties to even. -/
def roundDiv (num den : Nat) : Nat :=
  let q := num / den
  let twice := 2 * (num % den)
  if twice < den || (twice == den && q % 2 == 0) then q else q + 1

/-- The quotient `num / den / 2 ^ e`, as a numerator and a denominator. -/
def scaled (num den : Nat) : (e : Int) → Nat × Nat
  | .ofNat e => (num, den * Nat.pow 2 e)
  | .negSucc e => (num * Nat.pow 2 (e + 1), den)

/-- The nearest double of a positive quotient, without an upper limit. -/
def round (num den : Nat) : Binary64 :=
  let guess : Int := (num.log2 : Int) - den.log2 - 53
  let enough (e : Int) : Bool := match scaled num den e with
    | (a, b) => a < Nat.pow 2 53 * b
  let e := if enough guess then guess else if enough (guess + 1) then guess + 1 else guess + 2
  let e := max e (-1074)
  match scaled num den e with
  | (a, b) =>
    let m := roundDiv a b
    if m = Nat.pow 2 53 then ⟨Nat.pow 2 52, e + 1⟩ else ⟨m, e⟩

/-- Four times the value, and four times the ends of the interval of numbers that round to it, all
in units of `2 ^ (exponent - 2)`. -/
def interval (x : Binary64) : Nat × Nat × Nat :=
  let v := 4 * x.mantissa
  let below := if x.mantissa = Nat.pow 2 52 ∧ -1074 < x.exponent then 1 else 2
  (v - below, v, v + 2)

/-- A decimal number `digits * 10 ^ exponent`. -/
structure Digits where
  digits : Nat
  exponent : Int
  deriving Repr, DecidableEq

/-- The grid point `digits * 10 ^ p` and the number `n * 2 ^ e`, over one denominator. -/
def compare (digits : Nat) (p : Int) (n : Nat) (e : Int) : Nat × Nat :=
  match Numeral.ratio digits 10 p, Numeral.ratio n 2 e with
  | (a, b), (c, d) => (a * d, c * b)

/-- The better one of the two neighbours of a double on the decimal grid with step `10 ^ p`, if one
of them reads back as the double. -/
def onGrid? (x : Binary64) (p : Int) : Option Digits :=
  let (low, v, high) := x.interval
  let e := x.exponent - 2
  let (num, den) := Numeral.ratio v 2 e
  let (gnum, gden) := Numeral.ratio 1 10 p
  let floor := num * gden / (den * gnum)
  let closed := x.mantissa % 2 == 0
  let inside (d : Nat) : Bool :=
    let above := match compare d p low e with
      | (a, b) => if closed then b ≤ a else b < a
    let under := match compare d p high e with
      | (a, b) => if closed then a ≤ b else a < b
    above && under
  let distance (d : Nat) : Nat := match compare d p v e with
    | (a, b) => (a - b) + (b - a)
  let pick (d : Nat) : Option Digits := if d = 0 then none else some ⟨d, p⟩
  match inside floor, inside (floor + 1) with
  | true, true => if distance (floor + 1) < distance floor then pick (floor + 1) else pick floor
  | true, false => pick floor
  | false, true => pick (floor + 1)
  | false, false => none

/-- The decimal exponent of the first digit of a positive quotient. -/
def leading (num den : Nat) : Int :=
  let guess : Int := ((num.log2 : Int) - den.log2) * 30103 / 100000 - 1
  let reaches (p : Int) : Bool := match Numeral.ratio 1 10 p with
    | (a, b) => a * den ≤ num * b
  (([3, 2, 1, 0].map fun (k : Int) => guess + k).find? reaches).getD (guess - 1)

/-- The digits of a natural without the zeros at its end, and how many zeros there are. -/
def stripZeros : (fuel : Nat) → Nat → Nat × Nat
  | 0, n => (n, 0)
  | fuel + 1, n =>
    if n % 10 = 0 ∧ n ≠ 0 then match stripZeros fuel (n / 10) with
      | (m, k) => (m, k + 1)
    else (n, 0)

/-- The fewest digits that read back as a double. -/
def shortest (x : Binary64) : Digits :=
  let (num, den) := Numeral.ratio x.mantissa 2 x.exponent
  let first := leading num den
  let found := (List.range 18).findSome? fun (n : Nat) => x.onGrid? (first - n)
  let d := found.getD ⟨num, 0⟩
  match stripZeros 20 d.digits with
  | (m, k) => ⟨m, d.exponent + k⟩

end Binary64

/-! ## Written doubles -/

/-- An exact decimal number `digits * 10 ^ exponent`, with its sign; zero has a sign too. -/
structure Decimal where
  negative : Bool := false
  digits : Nat
  exponent : Int := 0
  /-- Whether it is written without a fraction and an exponent. -/
  plain : Bool := true
  /-- How it is written, if it has been read. -/
  spelling : Text := []
  deriving Repr, DecidableEq

namespace Decimal

/-- An integer as a decimal number. -/
def ofInt (n : Int) : Decimal := { negative := n < 0, digits := n.natAbs }

/-- The integer that a decimal number stands for, if it is written as one. -/
def toInt? (n : Decimal) : Option Int :=
  if !n.plain then none else some (if n.negative then -n.digits else n.digits)

/-- The natural number that a decimal number stands for, if it is written as one: in digits alone,
without a sign. -/
def toNat? (n : Decimal) : Option Nat := if n.plain && !n.negative then some n.digits else none

/-- The magnitude of a decimal number as a quotient. -/
def magnitude (n : Decimal) : Nat × Nat := Numeral.ratio n.digits 10 n.exponent

/-- Whether the nearest double of a decimal number is finite. -/
def isDouble (n : Decimal) : Bool := !Numeral.overflows n.magnitude

/-- An exponent with its sign and at least two digits. -/
def exponentText (e : Int) : Text :=
  let digits := Text.ofNat e.natAbs
  utf8 (if e < 0 then "e-" else "e+") ++ (if digits.length < 2 then utf8 "0" else []) ++ digits

/-- Digits in positional notation. -/
def positional (digits : Text) (exponent : Int) : Text :=
  if 0 ≤ exponent then digits ++ List.replicate exponent.toNat 0x30
  else
    let places := exponent.natAbs
    if places < digits.length then
      digits.take (digits.length - places) ++ [0x2E] ++ digits.drop (digits.length - places)
    else utf8 "0." ++ List.replicate (places - digits.length) 0x30 ++ digits

/-- Digits in scientific notation. -/
def scientific (digits : Text) (exponent : Int) : Text :=
  let point := if 1 < digits.length then [0x2E] ++ digits.drop 1 else []
  digits.take 1 ++ point ++ exponentText (exponent + digits.length - 1)

/-- **A decimal number as its nearest double is written in messages**: the fewest digits, in
scientific notation when the first digit stands below `10 ^ -4` or from `10 ^ 6` up. The sign is
kept when the double is zero. -/
def written (n : Decimal) : Text :=
  let (num, den) := n.magnitude
  let d := (Binary64.round num den).shortest
  let digits := Text.ofNat d.digits
  let lead := d.exponent + digits.length - 1
  (if n.negative then utf8 "-" else []) ++
    if Numeral.vanishes (num, den) then utf8 "0"
    else if lead < -4 || 6 ≤ lead then scientific digits d.exponent
    else positional digits d.exponent

end Decimal

end RobotsTxt
