import RobotsTxt.Span
import RobotsTxt.Text.Rune

/-!
# Positions

Editors count lines and characters from zero, where only a line feed ends a line and a character is
a UTF-16 unit. This module carries byte offsets to positions and back.

* `Text.positionAt`: the position of an offset. Just after a carriage return at the end of a line,
  it is the position before it.
* `Text.offsetAt`: the offset of a position; `PositionFault` says why there is none.
* `Text.rangeOf`, `Text.spanOf`: the same for spans and ranges.
-/

namespace RobotsTxt

/-- A line and a UTF-16 unit in it, both counted from zero. -/
structure Position where
  line : Nat
  character : Nat
  deriving Repr, DecidableEq

/-- A half-open range of positions. -/
structure Range where
  start : Position
  stop : Position
  deriving Repr, DecidableEq

/-- A position as `line:character`. -/
def Position.render (p : Position) : Text :=
  Text.ofNat p.line ++ utf8 ":" ++ Text.ofNat p.character

/-! ## From offsets to positions -/

namespace Text

/-- The part of a text after its last line feed. -/
def lastLine (t : Text) : Text := (t.reverse.takeWhile (· != 0x0A)).reverse

/-- Whether the text before an offset ends with a carriage return at the end of a line. -/
def endsInReturn (before after : Text) : Bool :=
  before.getLast? == some 0x0D && after.head?.all (· == 0x0A)

/-- The position of an offset. -/
def positionAt (t : Text) (offset : Nat) : Position :=
  let before := t.take offset
  let units := units16 (lastLine before)
  { line := before.count 0x0A
    character := if endsInReturn before (t.drop offset) then units - 1 else units }

/-- The column of an offset in bytes, by the same rules. -/
def byteColumnAt (t : Text) (offset : Nat) : Nat :=
  let before := t.take offset
  let bytes := (lastLine before).length
  if endsInReturn before (t.drop offset) then bytes - 1 else bytes

end Text

/-- Why a span has no range. -/
inductive SpanFault where
  | reversed (start stop : Int)
  | outside (edge : String) (offset : Int) (length : Nat)
  deriving Repr, DecidableEq

/-- The wording of a fault. -/
def SpanFault.message : SpanFault → Text
  | .reversed start stop =>
    utf8 "start offset (" ++ Text.ofInt start ++ utf8 ") > end (" ++ Text.ofInt stop ++ utf8 ")"
  | .outside edge offset length =>
    utf8 edge ++ utf8 ": invalid offset " ++ Text.ofInt offset ++ utf8 " (want 0-" ++
      Text.ofNat length ++ utf8 ")"

/-- The range of a span. -/
def Text.rangeOf (t : Text) (s : Span) : Except SpanFault Range :=
  let inside (offset : Int) : Bool := 0 ≤ offset && offset ≤ t.length
  if s.stop < s.start then .error (.reversed s.start s.stop)
  else if !inside s.start then .error (.outside "start" s.start t.length)
  else if !inside s.stop then .error (.outside "end" s.stop t.length)
  else .ok ⟨t.positionAt s.start.toNat, t.positionAt s.stop.toNat⟩

theorem Text.rangeOf_eq {t : Text} {s : Span} (h₀ : 0 ≤ s.start) (h : s.start ≤ s.stop)
    (h₁ : s.stop ≤ t.length) :
    t.rangeOf s = .ok ⟨t.positionAt s.start.toNat, t.positionAt s.stop.toNat⟩ := by
  unfold Text.rangeOf
  rw [if_neg (by omega), if_neg (by simp; omega), if_neg (by simp; omega)]

/-! ## From positions to offsets -/

/-- Why a position has no offset. -/
inductive PositionFault where
  | lineOutOfRange (line lines : Nat)
  | beyondFile
  | beyondLine
  | notUtf8
  deriving Repr, DecidableEq

/-- The wording of a fault. -/
def PositionFault.message : PositionFault → Text
  | .lineOutOfRange line lines =>
    utf8 "line number " ++ Text.ofNat line ++ utf8 " out of range 0-" ++ Text.ofNat lines
  | .beyondFile => utf8 "column is beyond end of file"
  | .beyondLine => utf8 "column is beyond end of line"
  | .notUtf8 => utf8 "buffer contains invalid UTF-8 text"

/-- The number of bytes in front of a line, and the text from there on. -/
def lineFrom : (line : Nat) → Text → Option (Nat × Text)
  | 0, t => some (0, t)
  | _ + 1, [] => none
  | n + 1, b :: t =>
    (lineFrom (if b == 0x0A then n else n + 1) t).map fun (offset, rest) => (offset + 1, rest)

/-- The number of bytes that a number of UTF-16 units takes. A position between the two units of a
character is the position before it. -/
def bytesOfUnits : (units : Nat) → List Rune → Except PositionFault Nat
  | 0, _ => .ok 0
  | _ + 1, [] => .error .beyondFile
  | n + 1, r :: rs =>
    if r.code = 0x0A then .error .beyondLine
    else if r.isStray then .error .notUtf8
    else if r.units = 2 then
      if n = 0 then .ok 0 else (bytesOfUnits (n - 1) rs).map (· + r.bytes.length)
    else (bytesOfUnits n rs).map (· + r.bytes.length)

namespace Text

/-- The number of lines. The text after the last line feed is a line, even when it is empty. -/
def lineCount (t : Text) : Nat := t.count 0x0A + 1

/-- The offset of a position. The line after the last one has a first column, which is the end. -/
def offsetAt (t : Text) (p : Position) : Except PositionFault Nat :=
  if t.lineCount < p.line then .error (.lineOutOfRange p.line t.lineCount)
  else match lineFrom p.line t with
    | some (start, rest) => (bytesOfUnits p.character (runes rest)).map (start + ·)
    | none => if p.character = 0 then .ok t.length else .error .beyondFile

end Text

/-- Why a range has no span. -/
inductive RangeFault where
  | position (fault : PositionFault)
  | reversed (range : Range)
  deriving Repr, DecidableEq

/-- The offsets of a range. -/
def Text.offsetsOf (t : Text) (r : Range) : Except RangeFault (Nat × Nat) :=
  match t.offsetAt r.start with
  | .error e => .error (.position e)
  | .ok start =>
    match t.offsetAt r.stop with
    | .error e => .error (.position e)
    | .ok stop => if stop < start then .error (.reversed r) else .ok (start, stop)

/-- The span of a range. -/
def Text.spanOf (t : Text) (r : Range) : Except RangeFault Span :=
  (t.offsetsOf r).map fun (start, stop) => ⟨start, stop⟩

end RobotsTxt
