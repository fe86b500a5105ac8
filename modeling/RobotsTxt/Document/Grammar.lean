import RobotsTxt.Document.Basic

/-!
# The grammar of documents

A text is cut into physical lines at CRLF, LF and CR. Each line is read on its own, and blank lines
separate records. Nothing is an error: a malformed line has missing tokens.

* `splitLines`: the physical lines of a text, each with the break that ends it.
* `Line.read?`: the line node of a physical line, none for a blank one.
* `groups`: the runs of consecutive lines between blank ones.
* `Document.parse`, `Tree.parse`: the document of a text.
-/

namespace RobotsTxt

/-- The byte order mark of UTF-8. -/
def byteOrderMark : Text := [0xEF, 0xBB, 0xBF]

/-! ## Physical lines -/

/-- A physical line: its content, and the break that ends it, which the last line lacks. -/
structure RawLine where
  content : Text
  ending : Text
  deriving Repr, DecidableEq

/-- Puts a byte in front of the first line. -/
def RawLine.push (b : UInt8) : List RawLine → List RawLine
  | l :: ls => { l with content := b :: l.content } :: ls
  | [] => [⟨[b], []⟩]

/-- The physical lines of a text. A carriage return and a line feed after it are one break. -/
def splitLines : Text → List RawLine
  | [] => [⟨[], []⟩]
  | 0x0D :: 0x0A :: t => ⟨[], [0x0D, 0x0A]⟩ :: splitLines t
  | b :: t => if isBreak b then ⟨[], [b]⟩ :: splitLines t else RawLine.push b (splitLines t)

/-! ## One line -/

namespace Line

/-- The line of a comment that stands alone. -/
def ofComment (comment : Token) : Line :=
  { kind := .commentLine, span := comment.span, comment? := some comment }

/-- The line with a name token, and with the other tokens that it may have. -/
def ofTokens (start : Nat) (name delimiter : Token) (value? comment? : Option Token) : Line :=
  let rest := [value?, comment?].reduceOption
  { kind := if name.missing then .extension else Directive.kindOf name.value
    span := ⟨start, (delimiter :: rest).foldl (fun stop t => max stop t.span.stop) name.span.stop⟩
    name? := some name
    delimiter? := some delimiter
    value? := value?
    comment? := comment? }

/-- The line whose part before the comment is `head`, which stands at `start` and is not empty. -/
def ofHead (start : Nat) (head : Text) (comment? : Option Token) : Line :=
  match head.cut 0x3A with
  | (_, none) =>
    let name := head.trimEnd
    let stop := start + name.length
    ofTokens start (.at .name start name) (.missingAt .delimiter stop)
      (some (.missingAt .value stop)) comment?
  | (before, some after) =>
    let name := before.trimEnd
    let colon := start + before.length
    let value := after.trimBlanks
    let valueStart := colon + 1 + (after.takeWhile isBlank).length
    ofTokens start (if name.isEmpty then .missingAt .name start else .at .name start name)
      (.at .delimiter colon [0x3A])
      (if value.isEmpty then none else some (.at .value valueStart value)) comment?

/-- The line of a physical line whose content stands at `start`; none when the content is blank. -/
def read? (start : Nat) (content : Text) : Option Line :=
  let pos := start + (content.takeWhile isBlank).length
  match (content.dropWhile isBlank).span (· != 0x23) with
  | ([], []) => none
  | ([], tail) => some (ofComment (.at .comment pos (Text.trimEnd tail)))
  | (head, []) => some (ofHead pos head none)
  | (head, tail) =>
    some (ofHead pos head (some (.at .comment (pos + head.length) (Text.trimEnd tail))))

end Line

/-- The line nodes of physical lines that follow each other from offset `start` on. -/
def readLines : (start : Nat) → List RawLine → List (Option Line)
  | _, [] => []
  | start, l :: ls =>
    Line.read? start l.content :: readLines (start + l.content.length + l.ending.length) ls

/-! ## Records -/

/-- A run in front of a list of runs, unless it is empty. -/
def consRun {α : Type} : List α → List (List α) → List (List α)
  | [], runs => runs
  | run, runs => run :: runs

/-- The first run of present elements, and the non-empty runs after the gap that ends it. -/
def splitRuns {α : Type} : List (Option α) → List α × List (List α)
  | [] => ([], [])
  | some a :: l => match splitRuns l with
    | (run, runs) => (a :: run, runs)
  | none :: l => match splitRuns l with
    | (run, runs) => ([], consRun run runs)

/-- The non-empty runs of present elements, in order. -/
def groups {α : Type} (l : List (Option α)) : List (List α) :=
  match splitRuns l with
  | (run, runs) => consRun run runs

/-- The record of a run of lines; none for an empty run. -/
def Record.ofLines? (lines : List Line) : Option Record :=
  match lines.head?, lines.getLast? with
  | some first, some last =>
    let named? := (lines.find? Line.isDirective).bind Line.name?
    some
      { nameToken? := some (named?.getD (.missingAt .name first.span.start.toNat))
        lines
        span := ⟨first.span.start, last.span.stop⟩ }
  | _, _ => none

/-! ## Documents -/

/-- The records of a text that stands at offset `start`. -/
def Record.readAll (start : Nat) (t : Text) : List Record :=
  (groups (readLines start (splitLines t))).filterMap Record.ofLines?

/-- **The document of a text.** -/
def Document.parse (t : Text) : Document :=
  if byteOrderMark.isPrefixOf t then
    { leading := [.at .other 0 byteOrderMark]
      records := Record.readAll byteOrderMark.length (t.drop byteOrderMark.length)
      span := ⟨0, t.length⟩ }
  else { leading := [], records := Record.readAll 0 t, span := ⟨0, t.length⟩ }

/-- The document of a version of a text. -/
def Tree.parse (s : Snapshot) : Tree := ⟨.parse s.text, s⟩

end RobotsTxt
