import RobotsTxt.Number.Shortest

/-!
# Doubles

The double that a numeral stands for. A finite one is a multiple of the least positive double, so
that two finite ones are equal exactly when these multiples are; the two zeros are one.

* `Double`: a double, without the sign of zero.
* `Double.ofRatio`, `Numeral.nearest`: the nearest double of a quotient, and of a numeral.
* `Double.same`: equality, which holds for no double that is not a number.
-/

namespace RobotsTxt

/-- A double, without the sign of zero. -/
inductive Double where
  /-- A multiple of the least positive double, which is `2 ^ -1074`. -/
  | finite (units : Int)
  | infinite (negative : Bool)
  | notANumber
  deriving Repr, DecidableEq

namespace Double

/-- The nearest double of a quotient with a sign. -/
def ofRatio (negative : Bool) (q : Nat × Nat) : Double :=
  if Numeral.overflows q then .infinite negative
  else
    let x := Binary64.round q.1 q.2
    let units : Int := x.mantissa * Nat.pow 2 (x.exponent + 1074).toNat
    .finite (if negative then -units else units)

/-- The nearest double of an integer. -/
def ofInt (n : Int) : Double := ofRatio (n < 0) (n.natAbs, 1)

/-- Whether two doubles are equal. What is not a number does not even equal itself. -/
def same : Double → Double → Bool
  | .notANumber, _ => false
  | x, y => x == y

end Double

/-- **The nearest double of a numeral.** -/
def Numeral.nearest : Numeral → Double
  | .finite negative mantissa base exponent => .ofRatio negative (ratio mantissa base exponent)
  | .infinite negative => .infinite negative
  | .notANumber => .notANumber

end RobotsTxt
