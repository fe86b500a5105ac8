import RobotsTxt.LogLevel

/-!
# Flags

The flags of a command line: `--name`, `--name=value`, `--name value`, and single letters, which may
be put together. Flags and other arguments may be mixed; `--` ends the flags.

* `Flag`: a flag that a command takes.
* `FlagFault`: why flags cannot be read.
* `readFlags`: the values of the flags and the other arguments.
-/

namespace RobotsTxt

/-- What a flag takes. -/
inductive FlagKind where
  /-- A truth value, which is true when the flag stands alone. -/
  | switch
  | text
  | level
  deriving Repr, DecidableEq

/-- A flag that a command takes. -/
structure Flag where
  name : String
  letter? : Option UInt8 := none
  kind : FlagKind
  deriving Repr, DecidableEq

/-- Why flags cannot be read. -/
inductive FlagFault where
  | syntaxError (argument : Text)
  | unknown (name : Text)
  | unknownLetter (letter : UInt8) (group : Text)
  | needsValue (argument : Text)
  | letterNeedsValue (letter : UInt8) (group : Text)
  | badValue (flag : Flag) (value : Text)
  deriving Repr, DecidableEq

namespace Flag

/-- A flag as it is called in messages. -/
def title (f : Flag) : Text :=
  match f.letter? with
  | some letter => utf8 "-" ++ [letter] ++ utf8 ", --" ++ utf8 f.name
  | none => utf8 "--" ++ utf8 f.name

/-- The truth value that a word stands for. -/
def truth? (word : Text) : Option Bool :=
  if ["1", "t", "T", "TRUE", "true", "True"].any fun w => utf8 w == word then some true
  else if ["0", "f", "F", "FALSE", "false", "False"].any fun w => utf8 w == word then some false
  else none

/-- What is wrong with a value for a flag. -/
def complaint? (f : Flag) (value : Text) : Option Text :=
  match f.kind with
  | .text => none
  | .switch =>
    if (truth? value).isSome then none
    else some (utf8 "strconv.ParseBool: parsing " ++ value.quote ++ utf8 ": invalid syntax")
  | .level =>
    match LogLevel.parse value with
    | .ok _ => none
    | .error e => some e.message

end Flag

/-- The wording of a fault. -/
def FlagFault.message : FlagFault → Text
  | .syntaxError argument => utf8 "bad flag syntax: " ++ argument
  | .unknown name => utf8 "unknown flag: --" ++ name
  | .unknownLetter letter group =>
    utf8 "unknown shorthand flag: " ++ quoteByte letter ++ utf8 " in -" ++ group
  | .needsValue argument => utf8 "flag needs an argument: " ++ argument
  | .letterNeedsValue letter group =>
    utf8 "flag needs an argument: " ++ quoteByte letter ++ utf8 " in -" ++ group
  | .badValue flag value =>
    utf8 "invalid argument " ++ value.quote ++ utf8 " for " ++ flag.title.quote ++ utf8 " flag: " ++
      (flag.complaint? value).getD []

/-! ## Single arguments -/

/-- Flags with their values, in the order in which they are set. -/
abbrev FlagValues := List (Flag × Text)

/-- What an argument with flags says: the flags that it sets, and the one whose value is the next
argument, with the fault that there is without a next argument. -/
structure FlagReading where
  values : FlagValues := []
  pending? : Option (Flag × FlagFault) := none
  deriving Repr, DecidableEq

/-- A flag with a value, which has to fit. -/
def Flag.set (f : Flag) (value : Text) : Except FlagFault (Flag × Text) :=
  match f.complaint? value with
  | none => .ok (f, value)
  | some _ => .error (.badValue f value)

/-- Reads an argument that starts with two dashes. -/
def readLongFlag (flags : List Flag) (argument : Text) : Except FlagFault FlagReading :=
  match argument.drop 2 with
  | [] => .error (.syntaxError argument)
  | b :: t =>
    if b == 0x2D || b == 0x3D then .error (.syntaxError argument)
    else match Text.cut 0x3D (b :: t) with
      | (name, value?) =>
        match flags.find? fun f => utf8 f.name == name with
        | none => .error (.unknown name)
        | some f =>
          match value?, f.kind with
          | some value, _ => (f.set value).map fun v => { values := [v] }
          | none, .switch => .ok { values := [(f, utf8 "true")] }
          | none, _ => .ok { pending? := some (f, .needsValue argument) }

/-- Reads the letters that follow a single dash. -/
def readLetters (flags : List Flag) : Text → Except FlagFault FlagReading
  | [] => .ok {}
  | letter :: rest =>
    match flags.find? fun f => f.letter? == some letter with
    | none => .error (.unknownLetter letter (letter :: rest))
    | some f =>
      match rest, f.kind with
      | 0x3D :: b :: value, _ => (f.set (b :: value)).map fun v => { values := [v] }
      | rest, .switch =>
        (readLetters flags rest).map fun r => { r with values := (f, utf8 "true") :: r.values }
      | [], _ => .ok { pending? := some (f, .letterNeedsValue letter (letter :: rest)) }
      | value, _ => (f.set value).map fun v => { values := [v] }

/-- Whether an argument stands for itself; a single dash does. -/
def isPlain (argument : Text) : Bool := argument.head? != some 0x2D || argument.length == 1

/-- Reads an argument with flags. -/
def readFlag (flags : List Flag) (argument : Text) : Except FlagFault FlagReading :=
  if (utf8 "--").isPrefixOf argument then readLongFlag flags argument
  else readLetters flags (argument.drop 1)

/-! ## All arguments -/

/-- The values of flags, and the other arguments. -/
structure ParsedFlags where
  values : FlagValues := []
  arguments : List Text := []
  deriving Repr, DecidableEq

namespace ParsedFlags

variable (p : ParsedFlags)

/-- The last value of a flag. -/
def last? (name : String) : Option Text :=
  (p.values.reverse.find? fun v => v.1.name == name).map Prod.snd

/-- The text of a flag; empty when the flag is absent. -/
def text (name : String) : Text := (p.last? name).getD []

/-- Whether a switch is on. -/
def isOn (name : String) : Bool := ((p.last? name).bind Flag.truth?).getD false

end ParsedFlags

/-- **Reads the arguments of a command.** -/
def readFlags (flags : List Flag) : List Text → Except FlagFault ParsedFlags
  | [] => .ok {}
  | a :: rest =>
    if isPlain a then (readFlags flags rest).map fun p => { p with arguments := a :: p.arguments }
    else if a == utf8 "--" then .ok { arguments := rest }
    else match readFlag flags a with
      | .error e => .error e
      | .ok r =>
        match r.pending?, rest with
        | none, rest =>
          (readFlags flags rest).map fun p => { p with values := r.values ++ p.values }
        | some (_, fault), [] => .error fault
        | some (f, _), value :: rest =>
          match f.set value with
          | .error e => .error e
          | .ok v =>
            (readFlags flags rest).map fun p => { p with values := r.values ++ v :: p.values }

end RobotsTxt
