import RobotsTxt.Yaml.Cursor

/-!
# Written scalars

A scalar is written plainly, between quotes, or as an indented block.

* `Yaml.readPlain`: a plain scalar, and whether it has left its line.
* `Yaml.readQuoted`, `Yaml.readBlock`: the two other forms.
-/

namespace RobotsTxt.Yaml

/-! ## Plain scalars -/

/-- The brackets and marks that end a plain scalar inside brackets. -/
def isFlowMark (c : Nat) : Bool := isOneOf ",?[]\x7b\x7d" c

/-- Reads characters of a plain scalar up to a gap or a mark that ends it. The gap before them
belongs to the scalar only if there are any. -/
def plainRun (flow : Bool) : (fuel : Nat) → (content : Array Nat) → Gap → Reader (Array Nat × Gap)
  | 0, content, gap => return (content, gap)
  | fuel + 1, content, gap => do
    let c ← get
    if isGap c.head || (c.head == 0x3A && isGap (c.ahead 1)) || (flow && isFlowMark c.head) then
      return (content, gap)
    Reader.skip
    Reader.need 2
    plainRun flow fuel ((content ++ gap.folded).push c.head) {}

/-- Reads a plain scalar, where `content` has been read and `gap` follows it. -/
def plainFrom (flow : Bool) (indent : Int) :
    (fuel : Nat) → (content : Array Nat) → Gap → Reader (Array Nat × Bool)
  | 0, content, gap => return (content, gap.broken)
  | fuel + 1, content, gap => do
    Reader.need 4
    let c ← get
    if c.atMarker || c.head == 0x23 then return (content, gap.broken)
    let (content, gap) ← plainRun flow c.room content gap
    let x ← Reader.head
    if !isGapBlank x && !isLineBreak x then return (content, gap.broken)
    Reader.need 1
    let gap ← takeGap (some indent) c.room gap
    if !flow && ((← get).column : Int) < indent then return (content, gap.broken)
    plainFrom flow indent fuel content gap

/-- Reads a plain scalar that needs a given indentation on its further lines, and tells whether the
cursor has come to another line. -/
def readPlain (flow : Bool) (indent : Int) : Reader (List Nat × Bool) := do
  let (content, broken) ← plainFrom flow indent (← get).room #[] {}
  return (content.toList, broken)

/-! ## Quoted scalars -/

/-- The character of an escape sequence of one letter. -/
def escapeCode? : Nat → Option Nat
  | 0x30 => some 0x00
  | 0x61 => some 0x07
  | 0x62 => some 0x08
  | 0x74 => some 0x09
  | 0x09 => some 0x09
  | 0x6E => some 0x0A
  | 0x76 => some 0x0B
  | 0x66 => some 0x0C
  | 0x72 => some 0x0D
  | 0x65 => some 0x1B
  | 0x20 => some 0x20
  | 0x22 => some 0x22
  | 0x27 => some 0x27
  | 0x5C => some 0x5C
  | 0x4E => some 0x85
  | 0x5F => some 0xA0
  | 0x4C => some 0x2028
  | 0x50 => some 0x2029
  | _ => none

/-- The number of digits after the letter of a numeric escape sequence. -/
def escapeWidth? : Nat → Option Nat
  | 0x78 => some 2
  | 0x75 => some 4
  | 0x55 => some 8
  | _ => none

/-- The character that hexadecimal digits name. -/
def namedCharacter? (digits : List Nat) : Option Nat := do
  let value ← digits.foldlM (fun n d => (digitValue? d).map (n * 16 + ·)) 0
  if (0xD800 ≤ value && value ≤ 0xDFFF) || 0x10FFFF < value then none else some value

/-- Reads the escape sequence at the cursor, its backslash included. -/
def readEscape : Reader Nat := do
  let letter ← Reader.ahead 1
  match escapeCode? letter, escapeWidth? letter with
  | some x, _ =>
    Reader.skipMany 2
    return x
  | none, some width =>
    Reader.skipMany 2
    Reader.need width
    let c ← get
    match namedCharacter? ((List.range width).map c.ahead) with
    | some x =>
      Reader.skipMany width
      return x
    | none => failure
  | none, none => failure

/-- Reads characters of a quoted scalar up to a gap or the closing quote, and tells whether an
escaped line break has been passed at their end. -/
def quotedRun (double : Bool) : (fuel : Nat) → (content : Array Nat) → Reader (Array Nat × Bool)
  | 0, content => return (content, false)
  | fuel + 1, content => do
    let c ← get
    let quote := if double then 0x22 else 0x27
    if isGap c.head then return (content, false)
    else if !double && c.head == quote && c.ahead 1 == quote then
      Reader.skipMany 2
      Reader.need 2
      quotedRun double fuel (content.push quote)
    else if c.head == quote then return (content, false)
    else if double && c.head == 0x5C && isLineBreak (c.ahead 1) then
      Reader.need 3
      Reader.skip
      modify Cursor.skipBreak
      return (content, true)
    else if double && c.head == 0x5C then
      let x ← readEscape
      Reader.need 2
      quotedRun double fuel (content.push x)
    else
      Reader.skip
      Reader.need 2
      quotedRun double fuel (content.push c.head)

/-- Reads a quoted scalar up to its closing quote, where `content` has been read. -/
def quotedFrom (double : Bool) : (fuel : Nat) → (content : Array Nat) → Reader (Array Nat)
  | 0, _ => failure
  | fuel + 1, content => do
    Reader.need 4
    let c ← get
    Reader.check (!c.atMarker && !isEnd c.head)
    let (content, escaped) ← quotedRun double c.room content
    Reader.need 1
    if (← Reader.head) == (if double then 0x22 else 0x27) then return content
    let gap ← takeGap none c.room { broken := escaped }
    quotedFrom double fuel (content ++ gap.folded)

/-- Reads the quoted scalar at the cursor. -/
def readQuoted (double : Bool) : Reader (List Nat) := do
  Reader.skip
  let content ← quotedFrom double (← get).room #[]
  Reader.skip
  return content.toList

/-! ## Block scalars -/

/-- What becomes of the line breaks at the end of a block scalar. -/
inductive Chomping where
  | strip
  | clip
  | keep
  deriving Repr, DecidableEq

/-- Reads the mark that asks for a chomping, if there is one. -/
def readChomping : Reader (Option Chomping) := do
  Reader.need 1
  let x ← Reader.head
  if x == 0x2B || x == 0x2D then
    Reader.skip
    return some (if x == 0x2B then .keep else .strip)
  else return none

/-- Reads the digit that gives an indentation, if there is one. It is not zero. -/
def readIncrement : Reader (Option Nat) := do
  Reader.need 1
  let x ← Reader.head
  if isDigitChar x then
    Reader.check (x != 0x30)
    Reader.skip
    return some (x - 0x30)
  else return none

/-- Reads the marks after the indicator of a block scalar, in either order. -/
def readBlockMarks : Reader (Chomping × Option Nat) := do
  match ← readChomping with
  | some chomping => return (chomping, ← readIncrement)
  | none =>
    match ← readIncrement with
    | some n => return ((← readChomping).getD .clip, some n)
    | none => return (.clip, none)

/-- Passes the indentation of a block scalar and its empty lines, up to `indent` columns, or without
a limit when `indent` is zero because it is not known yet. Gives the line breaks and the widest
indentation. -/
def blockBreaks (indent : Nat) :
    (fuel : Nat) → (breaks : Array Nat) → (widest : Nat) → Reader (Array Nat × Nat)
  | 0, breaks, widest => return (breaks, widest)
  | fuel + 1, breaks, widest => do
    Reader.need 1
    blockIndent (← get).room
    let c ← get
    let widest := max widest c.column
    Reader.check !((indent = 0 || c.column < indent) && c.head == 0x09)
    if isLineBreak c.head then
      let b ← Reader.takeBreak
      blockBreaks indent fuel (breaks ++ b.toArray) widest
    else return (breaks, widest)
where
  /-- Passes the spaces of an indentation. -/
  blockIndent : (fuel : Nat) → Reader Unit
    | 0 => return
    | fuel + 1 => do
      let c ← get
      if (indent = 0 || c.column < indent) && c.head == 0x20 then
        Reader.skip
        Reader.need 1
        blockIndent fuel

/-- A block scalar while it is being read. -/
structure BlockText where
  content : Array Nat := #[]
  /-- The break that ends the line read last. -/
  ending : List Nat := []
  /-- The breaks of the empty lines after it. -/
  breaks : Array Nat := #[]
  /-- Whether the line read last starts with a blank. -/
  blankLead : Bool := false

/-- What joins the line read last and the next one, which starts with a blank or not. -/
def BlockText.joint (b : BlockText) (literal blank : Bool) : List Nat :=
  if !literal && !b.blankLead && !blank && b.ending.head? == some 0x0A then
    (if b.breaks.isEmpty then [0x20] else [])
  else b.ending

/-- Reads the lines of a block scalar with a known indentation. -/
def blockLines (literal : Bool) (indent : Nat) : (fuel : Nat) → BlockText → Reader BlockText
  | 0, b => return b
  | fuel + 1, b => do
    let c ← get
    if c.column ≠ indent || isEnd c.head then return b
    let blank := isGapBlank c.head
    let line ← Reader.takeFrom (fun x => !isLineEnd x) c.room #[]
    let ending ← Reader.takeBreak
    let (breaks, _) ← blockBreaks indent c.room #[] 0
    let content := b.content ++ (b.joint literal blank).toArray ++ b.breaks ++ line
    blockLines literal indent fuel { content, ending, breaks, blankLead := blank }

/-- A block scalar with its end chomped. -/
def BlockText.chomped (ch : Chomping) (b : BlockText) : Array Nat :=
  match ch with
  | .strip => b.content
  | .clip => b.content ++ b.ending.toArray
  | .keep => b.content ++ b.ending.toArray ++ b.breaks

/-- Reads the block scalar at the cursor, where `outer` is the indentation around it. -/
def readBlock (literal : Bool) (outer : Int) : Reader (List Nat) := do
  Reader.skip
  let (ch, increment?) ← readBlockMarks
  Reader.skipWhile isGapBlank
  if (← Reader.head) == 0x23 then Reader.skipWhile fun x => !isLineEnd x
  Reader.check (isLineEnd (← Reader.head))
  if isLineBreak (← Reader.head) then Reader.skipBreak
  let given := match increment? with
    | some n => (max outer 0).toNat + n
    | none => 0
  let (breaks, widest) ← blockBreaks given (← get).room #[] 0
  let indent := if given = 0 then max (max widest (outer + 1).toNat) 1 else given
  Reader.need 1
  let b ← blockLines literal indent (← get).room { breaks }
  return (b.chomped ch).toList

end RobotsTxt.Yaml
