import RobotsTxt.Command.Flags

/-!
# Command lines

A command line names a command and gives it flags and arguments.

* `Invocation`: what a command line asks for.
* `UsageFault`: why a command line asks for nothing.
* `Invocation.read`: reads a command line.
-/

namespace RobotsTxt

/-- What a command line asks for. -/
inductive Invocation where
  | help
  | check (config : Text) (watch : Bool) (files : List Text)
  | format (write list : Bool) (files : List Text)
  | serve (pipe : Text) (level : Text)
  deriving Repr, DecidableEq

/-- Why a command line asks for nothing. -/
inductive UsageFault where
  | flags (fault : FlagFault)
  | tooFew (least given : Nat)
  /-- There is no such command; others with similar names are suggested. -/
  | unknownCommand (name path : Text) (suggestions : List Text)
  deriving Repr, DecidableEq

/-- The name of the program. -/
def programName : Text := utf8 "robotsls"

/-- The wording of a fault. -/
def UsageFault.message : UsageFault → Text
  | .flags fault => fault.message
  | .tooFew least given =>
    utf8 "requires at least " ++ Text.ofNat least ++ utf8 " arg(s), only received " ++
      Text.ofNat given
  | .unknownCommand name path suggestions =>
    utf8 "unknown command " ++ name.quote ++ utf8 " for " ++ path.quote ++
      if suggestions.isEmpty then []
      else utf8 "\n\nDid you mean this?\n" ++
        suggestions.flatMap fun s => utf8 "\t" ++ s ++ utf8 "\n"

/-! ## Commands -/

/-- A command that can be named. -/
inductive Command where
  | check
  | format
  | serve
  | help
  | completion
  deriving Repr, DecidableEq

namespace Command

/-- The name of a command. -/
def name : Command → Text
  | .check => utf8 "check"
  | .format => utf8 "fmt"
  | .serve => utf8 "serve"
  | .help => utf8 "help"
  | .completion => utf8 "completion"

/-- Every command. -/
def all : List Command := [.check, .format, .serve, .help, .completion]

/-- The command with a name. -/
def ofName? (name : Text) : Option Command := all.find? fun c => c.name == name

/-- The flag that every command takes. -/
def helpFlag : Flag := { name := "help", letter? := some 0x68, kind := .switch }

/-- The flags that a command takes. -/
def flags : Command → List Flag
  | .check => [{ name := "config", kind := .text }, { name := "watch", kind := .switch }, helpFlag]
  | .format =>
    [{ name := "write", letter? := some 0x77, kind := .switch },
      { name := "list", letter? := some 0x6C, kind := .switch }, helpFlag]
  | .serve => [{ name := "pipe", kind := .text }, { name := "log-level", kind := .level }, helpFlag]
  | .help | .completion => [helpFlag]

/-! ## Suggestions -/

/-- The next row of a table of edit distances, from the left neighbour and the row above. -/
def distanceRow (a : UInt8) : (left : Nat) → Text → List Nat → List Nat
  | left, b :: t, diagonal :: above :: row =>
    let here := if a == b then diagonal else 1 + min left (min above diagonal)
    here :: distanceRow a here t (above :: row)
  | _, _, _ => []

/-- The rows of a table of edit distances for the beginnings of a text, one after the other. -/
def distanceRows (t : Text) : Text → List Nat → List Nat
  | [], row => row
  | a :: s, row =>
    let first := row.headD 0 + 1
    distanceRows t s (first :: distanceRow a first t row)

/-- How many bytes have to be inserted, deleted or replaced to turn one text into another. -/
def editDistance (s t : Text) : Nat :=
  (distanceRows t s (List.range (t.length + 1))).getLastD 0

/-- Whether a command is suggested for a name that is none: the name is two edits away at most, or
the command's name starts with it. -/
def isSuggested (name : Text) (c : Command) : Bool :=
  c != .help && (editDistance name.lower c.name ≤ 2 || name.lower.isPrefixOf c.name)

/-- The commands that are suggested for a name that is none. -/
def suggestions (typed : Text) : List Text := (all.filter (isSuggested typed)).map name

/-! ## Reading -/

/-- Whether an argument may be a flag whose value is the next argument, as long as it is not known
which command is meant. -/
def takesNext (argument : Text) : Bool :=
  !argument.contains 0x3D &&
    ((utf8 "--").isPrefixOf argument || (argument.head? == some 0x2D && argument.length == 2))

/-- The arguments that are neither flags nor values of flags, up to `--`. A flag with at most one
argument after it ends the search. -/
def operands : List Text → List Text
  | [] => []
  | a :: rest =>
    if a == utf8 "--" then []
    else if takesNext a then
      match rest with
      | _ :: b :: rest => operands (b :: rest)
      | _ => []
    else if a.isEmpty || a.head? == some 0x2D then operands rest
    else a :: operands rest

/-- The arguments without the first one that names the command. -/
def without (name : Text) : List Text → List Text
  | [] => []
  | a :: rest =>
    if a == utf8 "--" then a :: rest
    else if takesNext a then
      match rest with
      | [] => [a]
      | value :: rest => a :: value :: without name rest
    else if a == name then rest
    else a :: without name rest

/-- What a command with some arguments asks for. -/
def invocation (c : Command) (p : ParsedFlags) : Except UsageFault Invocation :=
  let files := p.arguments
  match c with
  | .help | .completion => .ok .help
  | .check =>
    if files.isEmpty then .error (.tooFew 1 0)
    else .ok (.check (p.text "config") (p.isOn "watch") files)
  | .format =>
    if files.isEmpty then .error (.tooFew 1 0)
    else .ok (.format (p.isOn "write") (p.isOn "list") files)
  | .serve =>
    match files with
    | [] => .ok (.serve (p.text "pipe") (p.text "log-level"))
    | a :: _ => .error (.unknownCommand a (programName ++ utf8 " " ++ c.name) [])

end Command

/-- **Reads a command line.** Without a command, help is asked for. -/
def Invocation.read (arguments : List Text) : Except UsageFault Invocation :=
  let finish (c : Command) (arguments : List Text) : Except UsageFault Invocation :=
    match readFlags c.flags arguments with
    | .error e => .error (.flags e)
    | .ok p => if p.isOn "help" then .ok .help else c.invocation p
  match Command.operands arguments with
  | [] => finish .help arguments
  | name :: _ =>
    match Command.ofName? name with
    | some c => finish c (Command.without name arguments)
    | none => .error (.unknownCommand name programName (Command.suggestions name))

end RobotsTxt
