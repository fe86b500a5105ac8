import RobotsTxt.Text.Rune

/-!
# The characters of a YAML text

A YAML text is written in UTF-8 or UTF-16, which a byte order mark tells apart. It is read in blocks
of 512 bytes, and a block with a byte or a character that may not stand in YAML cannot be read at
all: what stands before the block is not affected.

* `Yaml.isAllowed`: the characters that may stand in YAML.
* `Yaml.Source`: the characters of a text up to the first block that cannot be read.
* `Yaml.Source.ofText`: the characters of a text.
-/

namespace RobotsTxt.Yaml

/-- The code points that may stand in YAML. -/
def isAllowed (c : Nat) : Bool :=
  c == 0x09 || c == 0x0A || c == 0x0D || (0x20 ≤ c && c ≤ 0x7E) || c == 0x85 ||
    (0xA0 ≤ c && c ≤ 0xD7FF) || (0xE000 ≤ c && c ≤ 0xFFFD) || (0x10000 ≤ c && c ≤ 0x10FFFF)

/-- How a text is written. -/
inductive Encoding where
  | utf8
  /-- UTF-16; `big` tells whether the first byte of a unit counts more than the second. -/
  | utf16 (big : Bool)
  deriving Repr, DecidableEq

/-- The encoding that a byte order mark tells, and the text after the mark. -/
def Encoding.detect : Text → Encoding × Text
  | 0xFF :: 0xFE :: t => (.utf16 false, t)
  | 0xFE :: 0xFF :: t => (.utf16 true, t)
  | 0xEF :: 0xBB :: 0xBF :: t => (.utf8, t)
  | t => (.utf8, t)

/-! ## Single characters -/

/-- What stands at the start of some bytes. -/
inductive Decoded where
  | character (code width : Nat)
  /-- The bytes end within a character. -/
  | incomplete
  | invalid
  deriving Repr, DecidableEq

/-- The length of a sequence in UTF-8 that starts with a byte; zero when none does. -/
def leadWidth (b : UInt8) : Nat :=
  if b < 0x80 then 1
  else if b < 0xC0 then 0
  else if b < 0xE0 then 2
  else if b < 0xF0 then 3
  else if b < 0xF8 then 4
  else 0

/-- Whether a byte continues a sequence in UTF-8. -/
def isTrail (b : UInt8) : Bool := 0x80 ≤ b && b < 0xC0

/-- The least code point that needs a sequence of a given length. -/
def leastOfWidth : Nat → Nat
  | 2 => 0x80
  | 3 => 0x800
  | 4 => 0x10000
  | _ => 0

/-- The character in UTF-8 at the start of some bytes. -/
def decodeUtf8 : Text → Decoded
  | [] => .incomplete
  | b :: t =>
    let width := leadWidth b
    let trail := t.take (width - 1)
    if width = 0 then .invalid
    else if trail.length < width - 1 then .incomplete
    else if !trail.all isTrail then .invalid
    else
      let lead := if width = 1 then b.toNat else b.toNat % Nat.pow 2 (7 - width)
      let code := trail.foldl (fun n b => n * 64 + b.toNat % 64) lead
      if code < leastOfWidth width || (0xD800 ≤ code && code ≤ 0xDFFF) then .invalid
      else .character code width

/-- The unit of UTF-16 that two bytes make. -/
def unitOf (big : Bool) (a b : UInt8) : Nat :=
  if big then a.toNat * 256 + b.toNat else b.toNat * 256 + a.toNat

/-- The character in UTF-16 at the start of some bytes. -/
def decodeUtf16 (big : Bool) : Text → Decoded
  | a :: b :: t =>
    let unit := unitOf big a b
    if 0xDC00 ≤ unit && unit ≤ 0xDFFF then .invalid
    else if 0xD800 ≤ unit && unit ≤ 0xDBFF then
      match t with
      | c :: d :: _ =>
        let second := unitOf big c d
        if 0xDC00 ≤ second && second ≤ 0xDFFF then
          .character (0x10000 + (unit - 0xD800) * 0x400 + (second - 0xDC00)) 4
        else .invalid
      | _ => .incomplete
    else .character unit 2
  | _ => .incomplete

/-- The character at the start of some bytes. -/
def Encoding.decode : Encoding → Text → Decoded
  | .utf8, t => decodeUtf8 t
  | .utf16 big, t => decodeUtf16 big t

/-! ## Blocks -/

/-- Adds the characters of a block to those read before it. Gives the bytes that are left at its
end, which are less than a character; none when the block cannot be read. -/
def readBlock? (e : Encoding) : (fuel : Nat) → Array Nat → Text → Option (Array Nat × Text)
  | 0, chars, t => some (chars, t)
  | fuel + 1, chars, t =>
    if t.isEmpty then some (chars, [])
    else match e.decode t with
      | .incomplete => some (chars, t)
      | .invalid => none
      | .character c width =>
        if isAllowed c then readBlock? e fuel (chars.push c) (t.drop width) else none

/-- The characters of a text. -/
structure Source where
  chars : Array Nat := #[]
  /-- How many characters there are at the end of each block. -/
  blocks : Array Nat := #[]
  /-- Whether a block follows that cannot be read. -/
  broken : Bool := false
  deriving Repr

namespace Source

/-- The number of bytes in a block. -/
def blockSize : Nat := 512

/-- Reads the blocks of a text, where `rest` is left of the blocks before and `size` bytes of the
text belong to the next one. -/
def readBlocks (e : Encoding) :
    (fuel : Nat) → Source → (rest : Text) → (size : Nat) → Text → Source
  | 0, s, _, _, _ => s
  | fuel + 1, s, rest, size, t =>
    if t.isEmpty then { s with broken := !rest.isEmpty }
    else match readBlock? e (size + 4) s.chars (rest ++ t.take size) with
      | none => { s with broken := true }
      | some (chars, rest') =>
        readBlocks e fuel { s with chars, blocks := s.blocks.push chars.size } rest'
          (blockSize - rest'.length) (t.drop size)

/-- The characters of a text. The byte order mark belongs to the first block. -/
def ofText (t : Text) : Source :=
  match Encoding.detect t with
  | (e, body) => readBlocks e (t.length + 1) {} [] (blockSize - (t.length - body.length)) body

end Source

end RobotsTxt.Yaml
