import RobotsTxt.Yaml.Property
import RobotsTxt.Yaml.Scalar

/-!
# YAML tokens

A YAML text as a sequence of tokens. Indentation becomes tokens of its own that open and close
collections, and a scalar that turns out to be a key gets a key token in front of it when the colon
after it is found. Tokens are read as they are asked for, two of them ahead, and further ahead as
long as the next one may turn out to be a key.

* `Yaml.Mark`: what a token is; `Yaml.Token`: a mark with its line.
* `Yaml.Lexer`: the state of reading, with the open indentations, the depth of brackets, and the
  places where a key may have begun.
* `Yaml.Scan.peek`, `Yaml.Scan.pass`: the next token, and the step past it.
-/

namespace RobotsTxt.Yaml

/-- What a token is. -/
inductive Mark where
  | start
  | finish
  | directive (directive : Directive)
  | documentStart
  | documentEnd
  | blockSequence
  | blockMapping
  | blockEnd
  | flowSequence
  | flowSequenceEnd
  | flowMapping
  | flowMappingEnd
  | blockEntry
  | flowEntry
  | key
  | value
  | alias (name : Text)
  | anchor (name : Text)
  | tag (tag : TagText)
  | scalar (plain : Bool) (content : Text)
  deriving Repr, DecidableEq

/-- A mark and the line where it starts, counted from zero. -/
structure Token where
  mark : Mark
  line : Nat
  deriving Repr, DecidableEq

/-- A place where a key without a key mark may have begun. -/
structure KeyPlace where
  possible : Bool := true
  /-- Set when nothing but a key can stand there. -/
  required : Bool := false
  /-- The number of the token that stands there. -/
  token : Nat := 0
  index : Nat := 0
  line : Nat := 0
  column : Nat := 0
  deriving Repr

/-- The state of reading tokens. -/
structure Lexer where
  cursor : Cursor
  /-- Whether the token in front of all others has been read. -/
  started : Bool := false
  tokens : Array Token := #[]
  /-- How many tokens have been passed. -/
  passed : Nat := 0
  /-- The indentation of the innermost open block collection; -1 outside. -/
  indent : Int := -1
  /-- The indentations around it. -/
  outer : List Int := []
  /-- Whether a key may begin here. -/
  keyAllowed : Bool := true
  /-- The place of a possible key at each depth of brackets, the innermost last. -/
  keys : Array KeyPlace := #[{ possible := false }]
  /-- The tokens at which a key may begin, each with the depth of the brackets around it. -/
  keyTokens : List (Nat × Nat) := []
  deriving Repr

/-- How deep collections may be nested. -/
def nestingLimit : Nat := 10000

namespace Lexer

variable (s : Lexer)

/-- How many brackets are open. -/
def depth : Nat := s.keys.size - 1

/-- Whether the cursor stands inside brackets. -/
def inFlow : Bool := 0 < s.depth

/-- Appends a token of the current line. -/
def emit (mark : Mark) : Lexer :=
  { s with tokens := s.tokens.push ⟨mark, s.cursor.line⟩ }

/-- Inserts a token in front of the one with a given number; at the end if that has been passed. -/
def insert (number : Nat) (t : Token) : Lexer :=
  { s with
    tokens :=
      if number < s.passed then s.tokens.push t else s.tokens.insertIdxIfInBounds number t }

/-- Closes the block collections that are indented deeper than a column. -/
def unroll (column : Int) : Lexer :=
  if s.inFlow then s else go s.outer s
where
  /-- Closes the collections with the given indentations around them. -/
  go : List Int → Lexer → Lexer
    | [], s => s
    | i :: is, s =>
      if column < s.indent then go is { s.emit .blockEnd with indent := i, outer := is } else s

/-- Opens a block collection at a column, unless one is open there. Its token goes in front of the
one with a given number. -/
def roll? (column number line : Nat) (mark : Mark) : Option Lexer :=
  if s.inFlow || (column : Int) ≤ s.indent then some s
  else if nestingLimit ≤ s.outer.length then none
  else some { s.insert number ⟨mark, line⟩ with indent := column, outer := s.indent :: s.outer }

/-- Opens a block collection at the cursor. -/
def rollHere? (mark : Mark) : Option Lexer :=
  s.roll? s.cursor.column s.tokens.size s.cursor.line mark

/-- The state with another place of a possible key inside the innermost brackets. -/
def setKey (k : KeyPlace) : Lexer := { s with keys := s.keys.pop.push k }

/-- The place of a possible key inside the innermost brackets. -/
def key : KeyPlace := s.keys.back?.getD { possible := false }

/-- Forgets that a key may begin at a token. -/
def forget (token : Nat) : Lexer :=
  { s with keyTokens := s.keyTokens.filter fun k => k.1 != token }

/-- Gives up the place of a possible key; fails when a key was required there. -/
def dropKey? : Option Lexer :=
  let k := s.key
  if !k.possible then some s
  else if k.required then none
  else some ((s.setKey { k with possible := false }).forget k.token)

/-- Notes that a key may begin here. -/
def saveKey? : Option Lexer :=
  if s.keyAllowed then do
    let s' ← s.dropKey?
    let k : KeyPlace :=
      { required := !s.inFlow && s.indent == s.cursor.column
        token := s.tokens.size
        index := s.cursor.index
        line := s.cursor.line
        column := s.cursor.column }
    let s' := (s'.setKey k).forget k.token
    return { s' with keyTokens := (k.token, s'.depth) :: s'.keyTokens }
  else some s

/-- Whether a place is too far away to be that of a key: a key stands on one line and has at most
1024 characters. -/
def isStale (k : KeyPlace) : Bool :=
  k.line < s.cursor.line || k.index + 1024 < s.cursor.index

/-- Checks the place of a possible key at a given depth, which is given up when it is too far away;
fails when a key was required there. -/
def checkKey? (depth : Nat) : Option (Bool × Lexer) :=
  match s.keys[depth]? with
  | none => none
  | some k =>
    if !k.possible then some (false, s)
    else if !s.isStale k then some (true, s)
    else if k.required then none
    else some (false, { s with keys := s.keys.setIfInBounds depth { k with possible := false } })

end Lexer

/-! ## Steps -/

/-- Reading tokens, which fails where the text is malformed. -/
abbrev Scan := StateT Lexer Option

namespace Scan

/-- Moves the cursor. -/
def read {α : Type} (r : Reader α) : Scan α := fun s =>
  (r s.cursor).map fun (a, c) => (a, { s with cursor := c })

/-- Changes the state, or fails. -/
def change (f : Lexer → Option Lexer) : Scan Unit := fun s => (f s).map fun s => ((), s)

/-- Sets whether a key may begin here. -/
def allowKey (b : Bool) : Scan Unit := modify fun s => { s with keyAllowed := b }

/-- A token of `n` characters at the cursor. -/
def mark (m : Mark) (n : Nat) : Scan Unit := do
  modify fun s => s.emit m
  read (Reader.skipMany n)

/-- Skips blanks, comments and line breaks. A tab may not stand where a key may begin. -/
def skipGap : (fuel : Nat) → Scan Unit
  | 0 => return
  | fuel + 1 => do
    read (Reader.need 1)
    if (← get).cursor.atByteOrderMark then read Reader.skip
    let s ← get
    let tabs := s.inFlow || !s.keyAllowed
    read (Reader.skipWhile fun x => x == 0x20 || (tabs && x == 0x09))
    if (← get).cursor.head == 0x23 then read (Reader.skipComments s.cursor.room 0)
    if isLineBreak (← get).cursor.head then
      read Reader.skipBreak
      if !s.inFlow then allowKey true
      skipGap fuel

/-- Leaves all block collections, where no key can be pending. -/
def leaveBlocks : Scan Unit := do
  modify fun s => s.unroll (-1)
  change Lexer.dropKey?
  allowKey false

/-- A marker of the whole document at the start of a line. -/
def documentMark (m : Mark) : Scan Unit := do
  leaveBlocks
  mark m 3

/-- The end of the text, which begins a line of its own. -/
def finish : Scan Unit := do
  modify fun s =>
    let c := s.cursor
    { s with cursor := if c.column = 0 then c else { c with line := c.line + 1, column := 0 } }
  leaveBlocks
  modify fun s => s.emit .finish

/-- A token whose content is read from the cursor. -/
def content {α : Type} (m : α → Mark) (r : Reader α) : Scan Unit := do
  let line := (← get).cursor.line
  let a ← read r
  modify fun s => { s with tokens := s.tokens.push ⟨m a, line⟩ }

/-- A directive at the start of a line. -/
def directive : Scan Unit := do
  leaveBlocks
  content .directive readDirective

/-- An opening bracket. -/
def openFlow (m : Mark) : Scan Unit := do
  change Lexer.saveKey?
  let s ← get
  if nestingLimit ≤ s.depth then failure
  set { s with keys := s.keys.push { possible := false, token := s.tokens.size } }
  allowKey true
  mark m 1

/-- A closing bracket. -/
def closeFlow (m : Mark) : Scan Unit := do
  change Lexer.dropKey?
  modify fun s =>
    if s.inFlow then { s.forget s.key.token with keys := s.keys.pop } else s
  allowKey false
  mark m 1

/-- A comma between brackets. -/
def flowEntry : Scan Unit := do
  change Lexer.dropKey?
  allowKey true
  mark .flowEntry 1

/-- Opens a block collection at the cursor, where a key must be able to begin. -/
def openBlock (m : Mark) : Scan Unit := do
  let s ← get
  if !s.inFlow then
    if !s.keyAllowed then failure
    change fun s => s.rollHere? m

/-- A dash in front of an entry. -/
def blockEntry : Scan Unit := do
  openBlock .blockSequence
  change Lexer.dropKey?
  allowKey true
  mark .blockEntry 1

/-- A question mark in front of a key. -/
def keyMark : Scan Unit := do
  openBlock .blockMapping
  change Lexer.dropKey?
  allowKey !(← get).inFlow
  mark .key 1

/-- A colon, which makes a key of what stands at the noted place. -/
def valueMark : Scan Unit := do
  let valid ← fun s => s.checkKey? s.depth
  if valid then
    let k := (← get).key
    modify fun s => s.insert k.token ⟨.key, k.line⟩
    change fun s => s.roll? k.column k.token k.line .blockMapping
    modify fun s => (s.setKey { k with possible := false }).forget k.token
    allowKey false
  else
    openBlock .blockMapping
    allowKey !(← get).inFlow
  mark .value 1

/-- A token that may be a key. -/
def keyContent {α : Type} (m : α → Mark) (r : Reader α) : Scan Unit := do
  change Lexer.saveKey?
  allowKey false
  content m r

/-- A plain scalar. A key may begin after it when it has left its line. -/
def plain : Scan Unit := do
  change Lexer.saveKey?
  allowKey false
  let line := (← get).cursor.line
  let (cs, broken) ← read (readPlain (← get).inFlow ((← get).indent + 1))
  modify fun s => { s with tokens := s.tokens.push ⟨.scalar true (textOf cs), line⟩ }
  if broken then allowKey true

/-- A block scalar. -/
def block (literal : Bool) : Scan Unit := do
  change Lexer.dropKey?
  allowKey true
  content (fun cs => .scalar false (textOf cs)) (readBlock literal (← get).indent)

/-- Whether a plain scalar may start with the character `x` in front of `y`. -/
def plainStarts (flow : Bool) (x y : Nat) : Bool :=
  if x == 0x2D then !isGapBlank y
  else if x == 0x3F || x == 0x3A then !flow && !isGap y
  else !isGap x && !isOneOf ",[]\x7b\x7d#&*!|>'\"%@`" x

/-- The token at the cursor. A comment may follow it on the same line, but not a dash. -/
def dispatch : Scan Unit := do
  let s ← get
  let x := s.cursor.head
  let y := s.cursor.ahead 1
  let quoted (double : Bool) : Scan Unit :=
    keyContent (fun cs => .scalar false (textOf cs)) (readQuoted double)
  if x == 0x2D && isGap y then blockEntry
  else
    if x == 0x5B then openFlow .flowSequence
    else if x == 0x7B then openFlow .flowMapping
    else if x == 0x5D then closeFlow .flowSequenceEnd
    else if x == 0x7D then closeFlow .flowMappingEnd
    else if x == 0x2C then flowEntry
    else if x == 0x3F && (s.inFlow || isGap y) then keyMark
    else if x == 0x3A && (s.inFlow || isGap y) then valueMark
    else if x == 0x2A then keyContent .alias readName
    else if x == 0x26 then keyContent .anchor readName
    else if x == 0x21 then keyContent .tag readTag
    else if x == 0x7C && !s.inFlow then block true
    else if x == 0x3E && !s.inFlow then block false
    else if x == 0x27 then quoted false
    else if x == 0x22 then quoted true
    else if plainStarts s.inFlow x y then plain
    else failure
    read Reader.skipLineComment

/-- Reads the next token, with the tokens of indentation before it. -/
def step : Scan Unit := do
  read (Reader.need 1)
  if !(← get).started then
    modify fun s => { s.emit .start with started := true }
  else
    skipGap (← get).cursor.room
    modify fun s => s.unroll s.cursor.column
    read (Reader.need 4)
    let c := (← get).cursor
    if isEnd c.head then finish
    else if c.column == 0 && c.head == 0x25 then directive
    else if c.isMarker 0x2D then documentMark .documentStart
    else if c.isMarker 0x2E then documentMark .documentEnd
    else dispatch

/-- Whether enough tokens are there to know the next one: two more, and no key can begin at it. -/
def isReady : Scan Bool := do
  let s ← get
  if s.tokens.size ≤ s.passed + 2 then return false
  match s.keyTokens.lookup s.passed with
  | none => return true
  | some depth => return !(← fun s => s.checkKey? depth)

/-- Reads tokens until the next one is known. -/
def fill : (fuel : Nat) → Scan Unit
  | 0 => failure
  | fuel + 1 => do
    if ← isReady then return
    step
    fill fuel

/-- The next token. -/
def peek : Scan Token := do
  let s ← get
  fill (2 * s.cursor.room + 8)
  match (← get).tokens[s.passed]? with
  | some t => return t
  | none => failure

/-- Passes the next token. -/
def pass : Scan Unit := modify fun s => { s with passed := s.passed + 1 }

end Scan

/-- The state in front of a text. -/
def Lexer.ofText (t : Text) : Lexer := { cursor := { source := .ofText t } }

end RobotsTxt.Yaml
