import RobotsTxt.Yaml.Source

/-!
# Places in a YAML text

YAML is read character by character from a cursor, which knows the line and the column that it has
come to, and how much of the text has been read from its source.

* `Yaml.Cursor`: a place in a text.
* `Yaml.Reader`: reading that moves the cursor and fails where the text is malformed.
* `Yaml.Gap`: blanks and line breaks between two words, and `Yaml.Gap.folded`, what they become.
-/

namespace RobotsTxt.Yaml

/-! ## Characters -/

/-- Space and tab. -/
def isGapBlank (c : Nat) : Bool := c == 0x20 || c == 0x09

/-- The characters that end a line. -/
def isLineBreak (c : Nat) : Bool :=
  c == 0x0A || c == 0x0D || c == 0x85 || c == 0x2028 || c == 0x2029

/-- The end of the text, where a zero stands for the missing character. -/
def isEnd (c : Nat) : Bool := c == 0

/-- A line break or the end. -/
def isLineEnd (c : Nat) : Bool := isEnd c || isLineBreak c

/-- A blank, a line break or the end. -/
def isGap (c : Nat) : Bool := isGapBlank c || isLineEnd c

/-- The characters of names: letters, digits, the underscore and the dash. -/
def isNameChar (c : Nat) : Bool :=
  (0x30 ≤ c && c ≤ 0x39) || (0x41 ≤ c && c ≤ 0x5A) || (0x61 ≤ c && c ≤ 0x7A) || c == 0x5F ||
    c == 0x2D

/-- A decimal digit. -/
def isDigitChar (c : Nat) : Bool := 0x30 ≤ c && c ≤ 0x39

/-- The value of a hexadecimal digit. -/
def digitValue? (c : Nat) : Option Nat := if c < 0x80 then hexValue? (.ofNat c) else none

/-- Whether a character is one of those in a text of ASCII characters. -/
def isOneOf (s : String) (c : Nat) : Bool := (utf8 s).any fun b => b.toNat == c

/-- The text of code points. -/
def textOf (cs : List Nat) : Text := cs.flatMap encodeRune

/-! ## Cursors -/

/-- A place in a YAML text. -/
structure Cursor where
  source : Source
  index : Nat := 0
  /-- Counted from zero. -/
  line : Nat := 0
  column : Nat := 0
  /-- The line breaks since the last character that is no blank. -/
  newlines : Nat := 0
  /-- The place that was reached when more of the text was last asked for. -/
  front : Nat := 0
  /-- How many characters have been read from the source. -/
  loaded : Nat := 0
  /-- How many blocks have been read from the source. -/
  blocks : Nat := 0
  deriving Repr

namespace Cursor

variable (c : Cursor)

/-- The character `n` places after the cursor. -/
def ahead (n : Nat) : Nat := c.source.chars.getD (c.index + n) 0

/-- The character at the cursor. -/
def head : Nat := c.ahead 0

/-- How many characters there can be after the cursor. -/
def room : Nat := c.source.chars.size + 2 - c.index

/-- Reads blocks until `n` characters after the cursor are there, or the text ends. -/
def load (n : Nat) : (fuel : Nat) → Cursor → Option Cursor
  | 0, c => some c
  | fuel + 1, c =>
    match c.source.blocks[c.blocks]? with
    | some size =>
      let c := { c with loaded := size, blocks := c.blocks + 1 }
      if n ≤ c.loaded - c.index then some c else load n fuel c
    | none => if c.source.broken then none else some { c with loaded := c.loaded + 1 }

/-- Makes sure that `n` characters after the cursor are there, unless the text ends before. -/
def need? (n : Nat) : Option Cursor :=
  if n ≤ c.loaded - c.index then some c
  else load n (c.source.blocks.size + 1) { c with front := c.index }

/-- The place after the character at the cursor. -/
def skip : Cursor :=
  { c with
    index := c.index + 1
    column := c.column + 1
    newlines := if isGapBlank c.head then c.newlines else 0 }

/-- The length of the line break at the cursor; zero when there is none. -/
def breakWidth : Nat :=
  if c.head == 0x0D && c.ahead 1 == 0x0A then 2 else if isLineBreak c.head then 1 else 0

/-- The place after the line break at the cursor. -/
def skipBreak : Cursor :=
  if c.breakWidth = 0 then c
  else
    { c with
      index := c.index + c.breakWidth
      line := c.line + 1
      column := 0
      newlines := c.newlines + 1 }

/-- The line break at the cursor as it is read. -/
def breakText : List Nat :=
  if c.head == 0x2028 || c.head == 0x2029 then [c.head] else if c.breakWidth = 0 then [] else [0x0A]

/-- Whether three given characters stand alone at the start of a line. -/
def isMarker (code : Nat) : Bool :=
  c.column == 0 && c.head == code && c.ahead 1 == code && c.ahead 2 == code && isGap (c.ahead 3)

/-- Whether the cursor stands at a document marker, `---` or `...`. -/
def atMarker : Bool := c.isMarker 0x2D || c.isMarker 0x2E

/-- Whether a byte order mark may be passed: it counts where the text was last asked for. -/
def atByteOrderMark : Bool :=
  c.column == 0 && c.source.chars.getD c.front 0 == 0xFEFF

end Cursor

/-! ## Reading -/

/-- Reading that moves the cursor and fails where the text is malformed. -/
abbrev Reader := StateT Cursor Option

namespace Reader

/-- Makes sure that some characters are there. -/
def need (n : Nat) : Reader Unit := fun c => (c.need? n).map fun c => ((), c)

/-- The character at the cursor. -/
def head : Reader Nat := return (← get).head

/-- The character `n` places after the cursor. -/
def ahead (n : Nat) : Reader Nat := return (← get).ahead n

/-- Passes a character. -/
def skip : Reader Unit := modify Cursor.skip

/-- Passes some characters of one line. -/
def skipMany : Nat → Reader Unit
  | 0 => return
  | n + 1 => do
    skip
    skipMany n

/-- Passes a line break. -/
def skipBreak : Reader Unit := do
  need 2
  modify Cursor.skipBreak

/-- Passes a line break and gives it as it is read. -/
def takeBreak : Reader (List Nat) := do
  need 2
  let b := (← get).breakText
  modify Cursor.skipBreak
  return b

/-- Fails unless a condition holds. -/
def check (b : Bool) : Reader Unit := if b then return else failure

/-- Reads characters that satisfy a test, which the end does not, after those in `done`. -/
def takeFrom (p : Nat → Bool) : (fuel : Nat) → (done : Array Nat) → Reader (Array Nat)
  | 0, done => return done
  | fuel + 1, done => do
    let x ← head
    if p x then
      skip
      need 1
      takeFrom p fuel (done.push x)
    else return done

/-- Reads the characters that satisfy a test, which the end does not. -/
def takeWhile (p : Nat → Bool) : Reader (Array Nat) := do
  need 1
  takeFrom p (← get).room #[]

/-- Passes the characters that satisfy a test, which the end does not. -/
def skipWhile (p : Nat → Bool) : Reader Unit := discard (takeWhile p)

/-! ## Comments -/

/-- How far ahead a comment is looked for. -/
def commentReach : Nat := 512

/-- The distance of a comment that only blanks, and line breaks if `lines` is set, separate from
the cursor, where the first `n` characters have been looked at. -/
def commentAhead? (lines : Bool) : (fuel n : Nat) → Reader (Option Nat)
  | 0, _ => return none
  | fuel + 1, n => do
    if commentReach ≤ n then return none
    need (n + 1)
    let x ← ahead n
    if x == 0x23 then return some n
    else if !isGapBlank x && !(lines && (x == 0x0A || x == 0x0D)) then return none
    else commentAhead? lines fuel (n + 1)

/-- Passes everything before a place. -/
def skipTo (index : Nat) : (fuel : Nat) → Reader Unit
  | 0 => return
  | fuel + 1 => do
    need 1
    if (← get).index < index then
      if isLineBreak (← head) then skipBreak else skip
      skipTo index fuel

/-- Passes a comment that starts `n` characters after the cursor, up to the end of its line. -/
def skipComment (n : Nat) : Reader Unit := do
  let c ← get
  skipTo (c.index + n) (n + 1)
  skipWhile fun x => !isLineEnd x

/-- Passes a comment on the rest of the line, unless the line has been left. -/
def skipLineComment : Reader Unit := do
  if (← get).newlines = 0 then
    match ← commentAhead? false (commentReach + 1) 0 with
    | some n => skipComment n
    | none => return

/-- Passes a comment and the comments on the lines after it, where the first `n` characters have
been looked at. -/
def skipComments : (fuel n : Nat) → Reader Unit
  | 0, _ => return
  | fuel + 1, n => do
    match ← commentAhead? true (commentReach + 1) n with
    | some n =>
      skipComment n
      let x ← head
      if isEnd x || x == 0x0A || x == 0x0D then skipComments fuel 1
    | none => return

end Reader

/-! ## Gaps -/

/-- Blanks and line breaks between two words. -/
structure Gap where
  /-- The blanks before the first line break. -/
  blanks : Array Nat := #[]
  /-- Whether a line break belongs to the gap. -/
  broken : Bool := false
  /-- The first line break. -/
  first : List Nat := []
  /-- The line breaks after the first. -/
  more : Array Nat := #[]
  deriving Repr

/-- What a gap becomes: blanks stand for themselves, a single line break for a space, and several
line breaks for all but the first. -/
def Gap.folded (g : Gap) : Array Nat :=
  if !g.broken then g.blanks
  else if g.first.head? == some 0x0A then (if g.more.isEmpty then #[0x20] else g.more)
  else g.first.toArray ++ g.more

/-- Reads the rest of a gap. A tab in the indentation of a line is refused when `indent` is the
indentation that the line needs. -/
def takeGap (indent? : Option Int) : (fuel : Nat) → Gap → Reader Gap
  | 0, g => return g
  | fuel + 1, g => do
    let c ← get
    if isGapBlank c.head then
      Reader.check !(g.broken && c.head == 0x09 && indent?.any fun i => (c.column : Int) < i)
      Reader.skip
      Reader.need 1
      takeGap indent? fuel (if g.broken then g else { g with blanks := g.blanks.push c.head })
    else if isLineBreak c.head then
      let b ← Reader.takeBreak
      Reader.need 1
      takeGap indent? fuel
        (if g.broken then { g with more := g.more ++ b.toArray }
          else { g with broken := true, blanks := #[], first := b })
    else return g

end RobotsTxt.Yaml
