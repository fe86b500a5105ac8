import RobotsTxt.Yaml.Resolve
import RobotsTxt.Yaml.Token

/-!
# YAML nodes

The scalars, sequences and mappings that tokens spell. A node with an anchor is kept in a table as
well, and an alias refers to its place there, so that a node may even contain an alias of itself.

* `Yaml.Node`: a node with the line where it starts.
* `Yaml.Document`: the root of a document and its anchored nodes.
* `Yaml.readDocument?`: the first document of a text.
-/

namespace RobotsTxt.Yaml

/-- A node of a YAML document. Lines are counted from one, and tags are in their short form. -/
inductive Node where
  | scalar (line : Nat) (tag content : Text)
  | sequence (line : Nat) (tag : Text) (items : List Node)
  | mapping (line : Nat) (tag : Text) (entries : List (Node × Node))
  /-- The alias with a given number, which refers to an anchored node. -/
  | alias (line : Nat) (name : Text) (number anchored : Nat)
  deriving Repr, Inhabited

namespace Node

/-- The line where a node starts. -/
def line : Node → Nat
  | .scalar line .. => line
  | .sequence line .. => line
  | .mapping line .. => line
  | .alias line .. => line

/-- The content of a scalar and the name of an alias; nothing for a collection. -/
def content : Node → Text
  | .scalar _ _ content => content
  | .alias _ name .. => name
  | _ => []

/-- Whether two nodes are of one kind. -/
def sameKind : Node → Node → Bool
  | .scalar .., .scalar .. => true
  | .sequence .., .sequence .. => true
  | .mapping .., .mapping .. => true
  | .alias .., .alias .. => true
  | _, _ => false

/-- The tag of a node; an alias has none of its own. -/
def tag : Node → Text
  | .scalar _ tag _ => tag
  | .sequence _ tag _ => tag
  | .mapping _ tag _ => tag
  | .alias .. => []

end Node

/-- A document of YAML. -/
structure Document where
  root : Node
  /-- The nodes that have an anchor, in the order in which they start. -/
  anchored : Array Node := #[]
  /-- A bound for the number of nodes. -/
  size : Nat := 0

/-! ## Reading -/

/-- The state of reading nodes. -/
structure Builder where
  lexer : Lexer
  /-- The beginnings of tags that handles stand for. -/
  handles : List (Text × Text) := []
  /-- The places of the nodes that have a name, the latest first. -/
  names : List (Text × Nat) := []
  anchored : Array Node := #[]
  /-- How many aliases there have been. -/
  aliases : Nat := 0

/-- Reading nodes, which fails where the tokens are malformed. -/
abbrev Build := StateT Builder Option

namespace Build

/-- Reads tokens. -/
def scan {α : Type} (r : Scan α) : Build α := fun b =>
  (r b.lexer).map fun (a, lexer) => (a, { b with lexer })

/-- The next token. -/
def peek : Build Token := scan Scan.peek

/-- Passes the next token. -/
def pass : Build Unit := scan Scan.pass

/-- The scalar that nothing spells. -/
def absent (line : Nat) : Node := .scalar (line + 1) nullTag []

/-! ## Properties -/

/-- The properties in front of a node: its line, its anchor and its tag. -/
structure Properties where
  line : Nat
  anchor? : Option Text := none
  tag? : Option Text := none

/-- Whether a node has properties. -/
def Properties.any (p : Properties) : Bool := p.anchor?.isSome || p.tag?.isSome

/-- The tag of a collection. -/
def Properties.tagOr (p : Properties) (default : Text) : Text :=
  match p.tag?.filter (· != utf8 "!") with
  | some t => shortTag t
  | none => default

/-- The whole of a tag, whose handle must be known. -/
def wholeTag (t : TagText) : Build Text := do
  if t.handle.isEmpty then return t.suffix
  match (← get).handles.lookup t.handle with
  | some start => return start ++ t.suffix
  | none => failure

/-- Reads the properties in front of a node, at most one of each. -/
def properties : Build Properties := do
  let first ← peek
  match first.mark with
  | .anchor a =>
    pass
    match (← peek).mark with
    | .tag t =>
      pass
      return ⟨first.line + 1, some a, some (← wholeTag t)⟩
    | _ => return ⟨first.line + 1, some a, none⟩
  | .tag t =>
    pass
    match (← peek).mark with
    | .anchor a =>
      pass
      return ⟨first.line + 1, some a, some (← wholeTag t)⟩
    | _ => return ⟨first.line + 1, none, some (← wholeTag t)⟩
  | _ => return ⟨first.line + 1, none, none⟩

/-- Gives a node its name before its content is read, so that the content may refer to it. -/
def named (p : Properties) (read : Build Node) : Build Node := do
  match p.anchor? with
  | none => read
  | some name =>
    let place := (← get).anchored.size
    modify fun b =>
      { b with names := (name, place) :: b.names, anchored := b.anchored.push (absent p.line) }
    let n ← read
    modify fun b => { b with anchored := b.anchored.setIfInBounds place n }
    return n

/-- The alias with a given name, which must be that of a node. -/
def aliased (line : Nat) (name : Text) : Build Node := do
  let b ← get
  match b.names.lookup name with
  | some place =>
    set { b with aliases := b.aliases + 1 }
    return .alias (line + 1) name b.aliases place
  | none => failure

/-! ## Nodes -/

mutual

/-- Reads a node. Inside a block, `block` allows block collections and `flat` a sequence without an
indentation of its own. -/
def node : (fuel : Nat) → (block flat : Bool) → Build Node
  | 0, _, _ => failure
  | fuel + 1, block, flat => do
    let first ← peek
    match first.mark with
    | .alias name =>
      let n ← aliased first.line name
      pass
      return n
    | _ =>
      let p ← properties
      let sequence (items : Build (List Node)) : Build Node := do
        return .sequence p.line (p.tagOr seqTag) (← items)
      let mapping (entries : Build (List (Node × Node))) : Build Node := do
        return .mapping p.line (p.tagOr mapTag) (← entries)
      let scalar (plain : Bool) (content : Text) : Node :=
        .scalar p.line (scalarTag p.tag? plain content) content
      let bare : Build Node := if p.any then named p (return scalar true []) else failure
      match (← peek).mark with
      | .scalar plain content =>
        pass
        named p (return scalar plain content)
      | .flowSequence =>
        pass
        named p (sequence (flowItems fuel true []))
      | .flowMapping =>
        pass
        named p (mapping (flowEntries fuel true []))
      | .blockEntry => if flat then named p (sequence (blockItems fuel true [])) else bare
      | .blockSequence =>
        if block then
          pass
          named p (sequence (blockItems fuel false []))
        else bare
      | .blockMapping =>
        if block then
          pass
          named p (mapping (blockEntries fuel []))
        else bare
      | _ => bare

/-- Reads the entries of a block sequence, which is closed by a token of its own unless it is flat.
-/
def blockItems : (fuel : Nat) → (flat : Bool) → List Node → Build (List Node)
  | 0, _, _ => failure
  | fuel + 1, flat, items => do
    let t ← peek
    match t.mark with
    | .blockEntry =>
      pass
      let stops := if flat then [.blockEntry, .key, .value, .blockEnd] else [.blockEntry, .blockEnd]
      let item ←
        if stops.contains (← peek).mark then pure (absent t.line) else node fuel true false
      blockItems fuel flat (item :: items)
    | .blockEnd =>
      if !flat then pass
      return items.reverse
    | _ => if flat then return items.reverse else failure

/-- Reads a key or a value of a block mapping, after a mark on a given line. -/
def blockPart : (fuel : Nat) → (line : Nat) → Build Node
  | 0, _ => failure
  | fuel + 1, line => do
    pass
    match (← peek).mark with
    | .key | .value | .blockEnd => return absent line
    | _ => node fuel true true

/-- Reads the entries of a block mapping. -/
def blockEntries : (fuel : Nat) → List (Node × Node) → Build (List (Node × Node))
  | 0, _ => failure
  | fuel + 1, entries => do
    let t ← peek
    match t.mark with
    | .key =>
      let key ← blockPart fuel t.line
      let t ← peek
      let value ← if t.mark = .value then blockPart fuel t.line else pure (absent t.line)
      blockEntries fuel ((key, value) :: entries)
    | .blockEnd =>
      pass
      return entries.reverse
    | _ => failure

/-- Passes the comma before every entry but the first. -/
def comma : (first : Bool) → Build Unit
  | true => return
  | false => do
    if (← peek).mark = .flowEntry then pass else failure

/-- Reads the entries of a bracketed sequence. -/
def flowItems : (fuel : Nat) → (first : Bool) → List Node → Build (List Node)
  | 0, _, _ => failure
  | fuel + 1, first, items => do
    if (← peek).mark = .flowSequenceEnd then
      pass
      return items.reverse
    comma first
    let t ← peek
    match t.mark with
    | .flowSequenceEnd =>
      pass
      return items.reverse
    | .key =>
      pass
      let pair ← flowPair fuel
      discard peek
      flowItems fuel false (.mapping (t.line + 1) mapTag [pair] :: items)
    | _ =>
      let item ← node fuel false false
      flowItems fuel false (item :: items)

/-- Reads the single entry of a mapping in a bracketed sequence. What stands in place of its key is
passed. -/
def flowPair : (fuel : Nat) → Build (Node × Node)
  | 0 => failure
  | fuel + 1 => do
    let t ← peek
    match t.mark with
    | .value | .flowEntry | .flowSequenceEnd =>
      pass
      return (absent t.line, ← flowValue fuel .flowSequenceEnd)
    | _ =>
      let key ← node fuel false false
      return (key, ← flowValue fuel .flowSequenceEnd)

/-- Reads the entries of a bracketed mapping. -/
def flowEntries :
    (fuel : Nat) → (first : Bool) → List (Node × Node) → Build (List (Node × Node))
  | 0, _, _ => failure
  | fuel + 1, first, entries => do
    if (← peek).mark = .flowMappingEnd then
      pass
      return entries.reverse
    comma first
    match (← peek).mark with
    | .flowMappingEnd =>
      pass
      return entries.reverse
    | .key =>
      pass
      let t ← peek
      let key ← match t.mark with
        | .value | .flowEntry | .flowMappingEnd => pure (absent t.line)
        | _ => node fuel false false
      let value ← flowValue fuel .flowMappingEnd
      flowEntries fuel false ((key, value) :: entries)
    | _ =>
      let key ← node fuel false false
      let t ← peek
      flowEntries fuel false ((key, absent t.line) :: entries)

/-- Reads the value of an entry between brackets. -/
def flowValue : (fuel : Nat) → (close : Mark) → Build Node
  | 0, _ => failure
  | fuel + 1, close => do
    let t ← peek
    if t.mark = .value then
      pass
      let t ← peek
      if t.mark = .flowEntry || t.mark = close then return absent t.line
      else node fuel false false
    else return absent t.line

end

/-! ## Documents -/

/-- The handles that are known without a directive. -/
def knownHandles : List (Text × Text) :=
  [(utf8 "!", utf8 "!"), (utf8 "!!", utf8 "tag:yaml.org,2002:")]

/-- Reads the directives in front of a document, and tells whether there were any. The version must
be 1.1, and nothing may be said twice. -/
def directives : (fuel : Nat) → (version : Bool) → List (Text × Text) → Build Bool
  | 0, _, _ => failure
  | fuel + 1, version, handles => do
    match (← peek).mark with
    | .directive (.version major minor) =>
      if version || major ≠ 1 || minor ≠ 1 then failure
      pass
      directives fuel true handles
    | .directive (.tag handle start) =>
      if (handles.lookup handle).isSome then failure
      pass
      directives fuel version ((handle, start) :: handles)
    | _ =>
      modify fun b => { b with handles := handles ++ knownHandles }
      return version || !handles.isEmpty

/-- Reads a document up to its end; none when there is nothing but the end. -/
def document (fuel : Nat) : Build (Option Node) := do
  if (← peek).mark = .start then pass
  let declared ← directives fuel false []
  let t ← peek
  match t.mark with
  | .finish => if declared then failure else return none
  | .documentStart =>
    pass
    let t ← peek
    let n ← match t.mark with
      | .directive _ | .documentStart | .documentEnd | .finish => pure (absent t.line)
      | _ => node fuel true false
    discard peek
    return some n
  | _ =>
    if declared then failure
    let n ← node fuel true false
    discard peek
    return some n

end Build

/-- **The first document of a YAML text**: none when the text is malformed, and an inner none when
there is no document. What follows the document must be well-formed for as far as it takes to see
that the document has ended. -/
def readDocument? (t : Text) : Option (Option Document) := do
  let (root?, b) ← (Build.document (8 * t.length + 64)).run { lexer := .ofText t }
  return root?.map fun root => { root, anchored := b.anchored, size := b.lexer.tokens.size + 1 }

end RobotsTxt.Yaml
