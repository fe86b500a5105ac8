import RobotsTxt.Number.Numeral

/-!
# Dates and times

A date is written as a year of four digits, a month and a day, and a time of day may follow it, with
or without the offset of its zone.

* `Yaml.Moment`: a moment, with the zone that it is given in.
* `Yaml.moment?`: the moment that a text spells.
* `Yaml.Moment.same`: equality of moments.
-/

namespace RobotsTxt.Yaml

/-! ## Moments -/

/-- A moment: the seconds from the start of the year 0, what goes beyond the last of them, and the
offset of a zone in seconds if one is given. -/
structure Moment where
  seconds : Int
  nanoseconds : Nat
  offset? : Option Int
  deriving Repr, DecidableEq

/-- Whether the zone of an offset is a common one: whole hours, from twelve behind to fourteen
ahead. -/
def isCommonOffset (offset : Int) : Bool :=
  offset % 3600 == 0 && -12 * 3600 ≤ offset && offset ≤ 14 * 3600

/-- Whether two moments are the same, in the same zone. An uncommon zone equals no other, not even
one with its own offset. -/
def Moment.same (a b : Moment) : Bool := a == b && a.offset?.all isCommonOffset

/-! ## Days -/

/-- Whether a year has a day more. -/
def isLeap (year : Nat) : Bool := year % 4 == 0 && (year % 100 != 0 || year % 400 == 0)

/-- The number of days of a month. -/
def daysIn (year month : Nat) : Nat :=
  if month = 2 then (if isLeap year then 29 else 28)
  else if month = 4 ∨ month = 6 ∨ month = 9 ∨ month = 11 then 30 else 31

/-- The number of days of all years before one. -/
def daysBefore (year : Nat) : Nat :=
  365 * year + (year + 3) / 4 - (year + 99) / 100 + (year + 399) / 400

/-- The number of days before a date, from the start of the year 0; none if there is no such date.
-/
def dayNumber? (year month day : Nat) : Option Nat :=
  if 1 ≤ month && month ≤ 12 && 1 ≤ day && day ≤ daysIn year month then
    some (daysBefore year + (List.range (month - 1)).foldl (fun n m => n + daysIn year (m + 1)) 0 +
      (day - 1))
  else none

/-! ## Parts of a spelling -/

/-- The value of digits in a base; none when there are none, or one of them is no digit. -/
def natOf? (base : Nat) (digits : Text) : Option Nat :=
  if digits.isEmpty then none
  else digits.foldlM (fun n b =>
    match hexValue? b with
    | some d => if d < base then some (n * base + d) else none
    | none => none) 0

/-- A number of one or two digits at the start of a text, and what follows it. -/
def takeShort? (t : Text) : Option (Nat × Text) :=
  let digits := (t.take 2).takeWhile isDigit
  (natOf? 10 digits).map fun n => (n, t.drop digits.length)

/-- A given byte at the start of a text, and what follows it. -/
def takeByte? (b : UInt8) (t : Text) : Option Text :=
  if t.head? == some b then some t.tail else none

/-- The nanoseconds of the fraction of a second at the start of a text, after a point or a comma,
and what follows it. Digits past the ninth do not count. -/
def takeFraction (t : Text) : Nat × Text :=
  match t with
  | mark :: rest =>
    if (mark == 0x2E || mark == 0x2C) && rest.head?.any isDigit then
      let digits := (rest.takeWhile isDigit).take 9
      (Numeral.digitsValue 10 digits * Nat.pow 10 (9 - digits.length), rest.dropWhile isDigit)
    else (0, t)
  | [] => (0, t)

/-- The offset at the end of a time: none for `Z`, and else a signed one of at most 24 hours and 60
minutes. -/
def zone? (t : Text) : Option (Option Int) :=
  match t with
  | [0x5A] => some none
  | [sign, a, b, 0x3A, c, d] => do
    let hours ← natOf? 10 [a, b]
    let minutes ← natOf? 10 [c, d]
    let offset : Int := (hours * 60 + minutes) * 60
    if 24 < hours || 60 < minutes then none
    else if sign == 0x2B then some (some offset)
    else if sign == 0x2D then some (some (-offset))
    else none
  | _ => none

/-- No zone at the end of a time. -/
def zoneless? (t : Text) : Option (Option Int) := if t.isEmpty then some none else none

/-- The moment of a day at the time that a text spells, with a zone that `zone?` reads. -/
def momentOn? (zone? : Text → Option (Option Int)) (day : Nat) (t : Text) : Option Moment := do
  let (hour, t) ← takeShort? t
  let (minute, t) ← takeShort? (← takeByte? 0x3A t)
  let (second, t) ← takeShort? (← takeByte? 0x3A t)
  let (nanoseconds, t) := takeFraction t
  let offset? ← zone? t
  if hour < 24 && minute < 60 && second < 60 then
    let seconds : Int := ((day * 24 + hour) * 60 + minute) * 60 + second
    return { seconds := seconds - offset?.getD 0, nanoseconds, offset? }
  none

/-- **The moment that a text spells**: a date alone is its midnight. -/
def moment? (t : Text) : Option Moment := do
  if (t.takeWhile isDigit).length ≠ 4 then none
  let year ← natOf? 10 (t.take 4)
  let (month, t) ← takeShort? (← takeByte? 0x2D (t.drop 4))
  let (day, t) ← takeShort? (← takeByte? 0x2D t)
  let days ← dayNumber? year month day
  match t with
  | [] => return { seconds := days * 86400, nanoseconds := 0, offset? := none }
  | 0x20 :: t => momentOn? zoneless? days (t.dropWhile (· == 0x20))
  | 0x54 :: t | 0x74 :: t => momentOn? zone? days t
  | _ => none

end RobotsTxt.Yaml
