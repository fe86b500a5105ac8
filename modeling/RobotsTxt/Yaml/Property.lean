import RobotsTxt.Yaml.Cursor

/-!
# Anchors, tags and directives

A node may have a name, which an alias refers to, and a tag, which says what it is. Directives in
front of a document give the version of YAML and short handles for the beginnings of tags.

* `Yaml.readName`: the name of an anchor or an alias.
* `Yaml.TagText`, `Yaml.readTag`: a tag as it is written.
* `Yaml.Directive`, `Yaml.readDirective`: a directive.
-/

namespace RobotsTxt.Yaml

/-- Reads the name of an anchor or an alias, after the mark at the cursor. -/
def readName : Reader Text := do
  Reader.skip
  let name ← Reader.takeWhile isNameChar
  let x ← Reader.head
  Reader.check (!name.isEmpty && (isGap x || isOneOf "?:,]\x7d%@`" x))
  return textOf name.toList

/-! ## Tags -/

/-- A tag as it is written: a handle, which may be empty, and what follows it. -/
structure TagText where
  handle : Text
  suffix : Text
  deriving Repr, DecidableEq

/-- Reads the escape sequences of one character, where `left` more bytes of it are missing. -/
def trailEscapes : (left : Nat) → (done : Text) → Reader Text
  | 0, done => return done
  | left + 1, done => do
    let b ← readByte
    Reader.check (isTrail b)
    trailEscapes left (done ++ [b])
where
  /-- Reads a byte that is written as a percent sign and two digits. -/
  readByte : Reader UInt8 := do
    Reader.need 3
    let c ← get
    match c.head == 0x25, digitValue? (c.ahead 1), digitValue? (c.ahead 2) with
    | true, some high, some low =>
      Reader.skipMany 3
      return .ofNat (16 * high + low)
    | _, _, _ => failure

/-- Reads a character that is written in escape sequences. -/
def readUriEscape : Reader Text := do
  let lead ← trailEscapes.readByte
  Reader.check (leadWidth lead != 0)
  trailEscapes (leadWidth lead - 1) [lead]

/-- The characters that stand for themselves in a tag. -/
def isUriChar (c : Nat) : Bool := isNameChar c || isOneOf ";/?:@&=+$,.!~*'()[]" c

/-- Reads the characters of a tag after those in `done`. -/
def uriFrom : (fuel : Nat) → (done : Text) → Reader Text
  | 0, done => return done
  | fuel + 1, done => do
    Reader.need 1
    let x ← Reader.head
    if x == 0x25 then
      let t ← readUriEscape
      uriFrom fuel (done ++ t)
    else if isUriChar x then
      Reader.skip
      uriFrom fuel (done ++ encodeRune x)
    else return done

/-- Reads the rest of a tag after the beginning in `done`. -/
def readUri (done : Text) : Reader Text := do uriFrom (← get).room done

/-- Reads the rest of a tag, which is not empty. -/
def readSomeUri : Reader Text := do
  let t ← readUri []
  Reader.check !t.isEmpty
  return t

/-- Reads the handle of a tag: an exclamation mark, a name, and another exclamation mark if there is
one. -/
def readHandle : Reader Text := do
  Reader.need 1
  Reader.check ((← Reader.head) == 0x21)
  Reader.skip
  let name ← Reader.takeWhile isNameChar
  if (← Reader.head) == 0x21 then
    Reader.skip
    return [0x21] ++ textOf name.toList ++ [0x21]
  else return [0x21] ++ textOf name.toList

/-- Whether a handle ends with an exclamation mark of its own. -/
def isClosedHandle (t : Text) : Bool := 1 < t.length && t.getLast? == some 0x21

/-- Reads a tag between angle brackets. -/
def readVerbatimTag : Reader TagText := do
  Reader.skipMany 2
  let suffix ← readSomeUri
  Reader.check ((← Reader.head) == 0x3E)
  Reader.skip
  return ⟨[], suffix⟩

/-- Reads a tag that may have a handle. -/
def readShortTag : Reader TagText := do
  let handle ← readHandle
  if isClosedHandle handle then return ⟨handle, ← readSomeUri⟩
  let suffix ← readUri (handle.drop 1)
  return if suffix.isEmpty then ⟨[], handle⟩ else ⟨[0x21], suffix⟩

/-- Reads the tag at the cursor. -/
def readTag : Reader TagText := do
  Reader.need 2
  let tag ← if (← Reader.ahead 1) == 0x3C then readVerbatimTag else readShortTag
  Reader.need 1
  Reader.check (isGap (← Reader.head))
  return tag

/-! ## Directives -/

/-- A directive in front of a document. -/
inductive Directive where
  | version (major minor : Nat)
  | tag (handle start : Text)
  deriving Repr, DecidableEq

/-- Reads a number of a version: one or two digits. -/
def readVersionPart : Reader Nat := do
  let digits ← Reader.takeWhile isDigitChar
  Reader.check (!digits.isEmpty && digits.size ≤ 2)
  return digits.foldl (fun n d => n * 10 + (d - 0x30)) 0

/-- Reads the version that a directive gives. -/
def readVersion : Reader Directive := do
  Reader.skipWhile isGapBlank
  let major ← readVersionPart
  Reader.check ((← Reader.head) == 0x2E)
  Reader.skip
  return .version major (← readVersionPart)

/-- Reads the handle that a directive gives, and what it stands for. -/
def readTagDirective : Reader Directive := do
  Reader.skipWhile isGapBlank
  let handle ← readHandle
  Reader.check (isClosedHandle handle || handle == [0x21])
  Reader.need 1
  Reader.check (isGapBlank (← Reader.head))
  Reader.skipWhile isGapBlank
  let start ← readSomeUri
  Reader.need 1
  Reader.check (isGap (← Reader.head))
  return .tag handle start

/-- Reads the directive at the cursor and the rest of its line. -/
def readDirective : Reader Directive := do
  Reader.skip
  let name := textOf (← Reader.takeWhile isNameChar).toList
  Reader.check (isGap (← Reader.head))
  let directive ←
    if name == utf8 "YAML" then readVersion
    else if name == utf8 "TAG" then readTagDirective
    else failure
  Reader.skipWhile isGapBlank
  if (← Reader.head) == 0x23 then Reader.skipWhile fun x => !isLineEnd x
  Reader.check (isLineEnd (← Reader.head))
  if isLineBreak (← Reader.head) then Reader.skipBreak
  return directive

end RobotsTxt.Yaml
