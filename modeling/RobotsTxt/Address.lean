import RobotsTxt.Text.Quoted

/-!
# Numeric addresses

The address of a host written in numbers: four decimal fields with points between them, or up to
eight hexadecimal groups with colons between them, two of which in a row stand for as many zero
groups as are missing. The last two groups may be written as four decimal fields, and a zone may
follow a percent sign.

* `Address.Flaw`: why a text is no address, and `Address.ReadError.message`, the report of it.
* `Address.family`: which of the two forms a text has.
-/

namespace RobotsTxt.Address

/-- The two forms of an address. -/
inductive Family where
  | dotted
  | grouped
  deriving Repr, DecidableEq

/-- Why a text is no address, with the rest of the text where that is shown. -/
inductive Flaw where
  | noSeparator
  | onlyZone
  | leadingZero
  | largeField
  | emptyField (rest : Text)
  | manyFields
  | strayByte (rest : Text)
  | fewFields
  | emptyZone
  | longGroup (rest : Text)
  | emptyGroup (rest : Text)
  | misplacedFields (rest : Text)
  | noRoomForFields (rest : Text)
  | missingColon (rest : Text)
  | trailingColon (rest : Text)
  | secondGap (rest : Text)
  | trailing (rest : Text)
  | fewGroups
  | uselessGap
  deriving Repr, DecidableEq

/-- The wording of a flaw, without the rest of the text. -/
def Flaw.wording : Flaw → String
  | .noSeparator => "unable to parse IP"
  | .onlyZone => "missing IPv6 address"
  | .leadingZero => "IPv4 field has octet with leading zero"
  | .largeField => "IPv4 field has value >255"
  | .emptyField _ => "IPv4 field must have at least one digit"
  | .manyFields => "IPv4 address too long"
  | .strayByte _ => "unexpected character"
  | .fewFields => "IPv4 address too short"
  | .emptyZone => "zone must be a non-empty string"
  | .longGroup _ => "each group must have 4 or less digits"
  | .emptyGroup _ => "each colon-separated field must have at least one digit"
  | .misplacedFields _ => "embedded IPv4 address must replace the final 2 fields of the address"
  | .noRoomForFields _ =>
    "too many hex fields to fit an embedded IPv4 at the end of the address"
  | .missingColon _ => "unexpected character, want colon"
  | .trailingColon _ => "colon must be followed by more characters"
  | .secondGap _ => "multiple :: in address"
  | .trailing _ => "trailing garbage after address"
  | .fewGroups => "address string too short"
  | .uselessGap => "the :: must expand to at least one field of zeros"

/-- The rest of the text at a flaw, where that is shown. -/
def Flaw.rest : Flaw → Text
  | .emptyField r | .strayByte r | .longGroup r | .emptyGroup r | .misplacedFields r
  | .noRoomForFields r | .missingColon r | .trailingColon r | .secondGap r | .trailing r => r
  | _ => []

/-- A text that is no address, and why. -/
structure ReadError where
  text : Text
  flaw : Flaw
  deriving Repr, DecidableEq

/-- The report of a text that is no address. -/
def ReadError.message (e : ReadError) : Text :=
  let place := if e.flaw.rest.isEmpty then [] else utf8 " (at " ++ e.flaw.rest.quote ++ utf8 ")"
  utf8 "ParseAddr(" ++ e.text.quote ++ utf8 "): " ++ utf8 e.flaw.wording ++ place

/-- Checks decimal fields, where `dots` points and a field of `digits` digits that make `value` have
been read. -/
def checkFields (dots value digits : Nat) : Text → Except Flaw Unit
  | [] => if dots < 3 then .error .fewFields else .ok ()
  | b :: t =>
    if isDigit b then
      let value' := value * 10 + (b.toNat - 0x30)
      if digits == 1 && value == 0 then .error .leadingZero
      else if 255 < value' then .error .largeField
      else checkFields dots value' (digits + 1) t
    else if b == 0x2E then
      if digits == 0 || t.isEmpty then .error (.emptyField (b :: t))
      else if dots == 3 then .error .manyFields
      else checkFields (dots + 1) 0 0 t
    else .error (.strayByte (b :: t))

/-- Checks the end of hexadecimal groups, where there is room for `room` more of them. -/
def checkEnd (room : Nat) (gap : Bool) (rest : Text) : Except Flaw Unit :=
  if !rest.isEmpty then .error (.trailing rest)
  else if 0 < room && !gap then .error .fewGroups
  else if room == 0 && gap then .error .uselessGap
  else .ok ()

/-- Checks hexadecimal groups, where there is room for `room` of them and `gap` tells whether two
colons in a row have been passed. -/
def checkGroups : (room : Nat) → (gap : Bool) → Text → Except Flaw Unit
  | 0, gap, t => checkEnd 0 gap t
  | room + 1, gap, t =>
    match t.span fun b => (hexValue? b).isSome with
    | (digits, rest) =>
      if 4 < digits.length then .error (.longGroup t)
      else if digits.isEmpty then .error (.emptyGroup t)
      else match rest with
        | [] => checkEnd room gap []
        | 0x2E :: _ =>
          if !gap && room != 1 then .error (.misplacedFields t)
          else if room == 0 then .error (.noRoomForFields t)
          else do
            checkFields 0 0 0 t
            checkEnd (room - 1) gap []
        | [0x3A] => .error (.trailingColon rest)
        | [0x3A, 0x3A] => if gap then .error (.secondGap [0x3A]) else checkEnd room true []
        | 0x3A :: 0x3A :: more =>
          if gap then .error (.secondGap (0x3A :: more)) else checkGroups room true more
        | 0x3A :: more => checkGroups room gap more
        | _ => .error (.missingColon rest)

/-- Checks an address of hexadecimal groups with its zone. -/
def checkGrouped (t : Text) : Except Flaw Unit :=
  match t.cut 0x25 with
  | (_, some []) => .error .emptyZone
  | ([0x3A, 0x3A], _) => .ok ()
  | (0x3A :: 0x3A :: groups, _) => checkGroups 8 true groups
  | (groups, _) => checkGroups 8 false groups

/-- **The form of an address.** The first separator in the text tells which form it should have. -/
def family (t : Text) : Except ReadError Family :=
  let separator? := t.find? fun b => b == 0x2E || b == 0x3A || b == 0x25
  let checked : Except Flaw Family := match separator? with
    | some 0x2E => (checkFields 0 0 0 t).map fun _ => .dotted
    | some 0x3A => (checkGrouped t).map fun _ => .grouped
    | some _ => .error .onlyZone
    | none => .error .noSeparator
  checked.mapError fun flaw => ⟨t, flaw⟩

end RobotsTxt.Address
