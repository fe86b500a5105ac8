import RobotsTxt.Text.Quoted
import RobotsTxt.Yaml.Node

/-!
# Values of YAML nodes

Nodes are read as texts, truth values and mappings. What has the wrong type is noted and passed
over, so that everything that is wrong is reported together.

* `Yaml.TypeFault`: what has the wrong type.
* `Yaml.Decode`: reading values, which follows aliases and notes faults.
* `Yaml.readText`, `Yaml.readTruth`: the values of scalars.
* `Yaml.readOwn`, `Yaml.readMerged`, `Yaml.readRecord`: the entries of mappings, and those that
  they merge.
* `Yaml.Document.decode`: the value of a document.
-/

namespace RobotsTxt.Yaml

/-! ## Faults -/

/-- A part of a document that is not what it should be. -/
inductive TypeFault where
  /-- A node that does not fit the type that is asked for. -/
  | mismatch (line : Nat) (tag content : Text) (target : String)
  | unknownField (line : Nat) (name : Text) (target : String)
  | repeatedField (line : Nat) (name : Text) (target : String)
  | duplicateKey (line : Nat) (key : Text) (first : Nat)
  deriving Repr, DecidableEq

/-- A content between backquotes, cut short when it is long. -/
def excerpt (content : Text) : Text :=
  utf8 " `" ++ (if 10 < content.length then content.take 7 ++ utf8 "..." else content) ++ utf8 "`"

/-- The wording of a fault. Only scalars have a content to show, and a collection shows an empty one
when its tag is not the usual one. -/
def TypeFault.message : TypeFault → Text
  | .mismatch line tag content target =>
    utf8 "line " ++ Text.ofNat line ++ utf8 ": cannot unmarshal " ++ tag ++
      (if tag == seqTag || tag == mapTag then content else excerpt content) ++ utf8 " into " ++
      utf8 target
  | .unknownField line name target =>
    utf8 "line " ++ Text.ofNat line ++ utf8 ": field " ++ name ++ utf8 " not found in type " ++
      utf8 target
  | .repeatedField line name target =>
    utf8 "line " ++ Text.ofNat line ++ utf8 ": field " ++ name ++ utf8 " already set in type " ++
      utf8 target
  | .duplicateKey line key first =>
    utf8 "line " ++ Text.ofNat line ++ utf8 ": mapping key " ++ key.quote ++
      utf8 " already defined at line " ++ Text.ofNat first

/-- The collections that a key may be. -/
inductive Collection where
  | list
  /-- A mapping all of whose keys are texts. -/
  | texts
  | mapping
  deriving Repr, DecidableEq

/-- The name of the type of a collection. -/
def Collection.name : Collection → String
  | .list => "[]interface \x7b\x7d"
  | .texts => "map[string]interface \x7b\x7d"
  | .mapping => "map[interface \x7b\x7d]interface \x7b\x7d"

/-- What a key is compared by. -/
inductive Key where
  | null
  | truth (b : Bool)
  | integer (n : Int)
  | text (t : Text)
  /-- A number with a fraction. -/
  | number (x : Double)
  | moment (m : Moment)
  /-- A collection cannot be compared with anything. -/
  | collection (c : Collection)
  deriving Repr, DecidableEq

/-- What a scalar is compared by when it is a key. -/
def Resolved.toKey : Resolved → Key
  | .null => .null
  | .truth b => .truth b
  | .integer n => .integer n
  | .text t => .text t
  | .number x => .number x
  | .moment m => .moment m

/-- Whether two keys are the same. An integer differs from every number with a fraction. -/
def Key.same : Key → Key → Bool
  | .number x, .number y => x.same y
  | .moment a, .moment b => a.same b
  | k, k' => k == k'

/-- Why no value is read at all. -/
inductive DecodeFailure where
  | malformed
  /-- A collection would have to be compared with other keys. -/
  | incomparable (c : Collection)
  deriving Repr, DecidableEq

/-! ## Reading -/

/-- The state of reading the values of nodes. -/
structure Decoding where
  /-- The nodes that aliases refer to. -/
  anchored : Array Node := #[]
  /-- How many nodes have been looked at, and how many of them inside an alias. -/
  visits : Nat := 0
  aliased : Nat := 0
  /-- The aliases that are being followed. -/
  active : List Nat := []
  /-- What has the wrong type, the latest first. -/
  faults : List TypeFault := []
  /-- The keys that the entries of a merged mapping may not change any more. -/
  merged? : Option (List Key) := none

/-- Reading values. -/
abbrev Decode := StateT Decoding (Except DecodeFailure)

/-- Whether too many of the visits are inside aliases: at most 99 in 100 may be, and in larger
documents less, down to one in ten. -/
def isExcessive (visits aliased : Nat) : Bool :=
  let low := 400000
  let high := 4000000
  let allowed :=
    if visits ≤ low then 99 * (high - low)
    else if high ≤ visits then 10 * (high - low)
    else 99 * (high - low) - 89 * (visits - low)
  100 < aliased && 1000 < visits && allowed * visits < 100 * (high - low) * aliased

/-- Gives up. -/
def malformed {α : Type} : Decode α := throw .malformed

/-- Notes a fault. -/
def report (fault : TypeFault) : Decode Unit := modify fun d =>
  { d with faults := fault :: d.faults }

/-- Counts a visit. -/
def countVisit : Decode Unit := do
  let d ← get
  let visits := d.visits + 1
  let aliased := if d.active.isEmpty then d.aliased else d.aliased + 1
  if isExcessive visits aliased then malformed
  set { d with visits, aliased }

/-- The node that an alias refers to; any other node is itself. -/
def target (n : Node) : Decode Node := do
  match n with
  | .alias _ _ _ place => return (← get).anchored.getD place n
  | n => return n

/-- Looks at a node, or at the one that an alias refers to, which may not contain the alias. -/
def visit {α : Type} (n : Node) (read : Node → Decode α) : Decode α := do
  countVisit
  match n with
  | .alias _ _ number _ =>
    let active := (← get).active
    if active.contains number then malformed
    modify fun d => { d with active := number :: active }
    countVisit
    let a ← read (← target n)
    modify fun d => { d with active }
    return a
  | n => read n

/-- A node that does not fit. -/
def misfit {α : Type} (n : Node) (type : String) : Decode (Option α) := do
  report (.mismatch n.line n.tag n.content type)
  return none

/-! ## Keys -/

/-- The later keys that equal an earlier one. Keys are compared as they are written. -/
def duplicateKeys : List Node → List TypeFault
  | [] => []
  | k :: ks =>
    (ks.filter fun k' => k.sameKind k' && k.content == k'.content).map (fun k' =>
      .duplicateKey k'.line k'.content k.line) ++ duplicateKeys ks

/-- Reads a mapping if no key stands twice. -/
def distinctly {α : Type} (entries : List (Node × Node)) (read : Decode (Option α)) :
    Decode (Option α) := do
  match duplicateKeys (entries.map Prod.fst) with
  | [] => read
  | faults =>
    faults.forM report
    return none

/-- Whether a key merges the entries of its value into the mapping. -/
def isMerge : Node → Bool
  | .scalar _ tag content => tag == mergeTag && content == utf8 "<<"
  | _ => false

/-! ## Scalars -/

/-- What a scalar stands for, whose tag must fit its content. -/
def resolved (tag content : Text) : Decode Resolved :=
  match resolve? tag content with
  | some r => return r
  | none => malformed

/-- A collection where a scalar is asked for. A mapping is searched for repeated keys first. -/
def refuseCollection {α : Type} (type : String) (n : Node) : Decode (Option α) :=
  match n with
  | .mapping _ _ entries => distinctly entries (misfit n type)
  | n => misfit n type

/-- What is no mapping where one is asked for. A null is no fault, and stands for `null?`. -/
def refuseOther {α : Type} (type : String) (null? : Option α) (n : Node) : Decode (Option α) := do
  match n with
  | .scalar _ tag content =>
    match ← resolved tag content with
    | .null => return null?
    | _ => misfit n type
  | n => misfit n type

/-- **Reads a text**: any scalar but a null, as it is written. -/
def readText (n : Node) : Decode (Option Text) := visit n fun n => do
  match n with
  | .scalar _ tag content =>
    match ← resolved tag content with
    | .null => return none
    | .text t => return some t
    | _ => return some content
  | n => refuseCollection "string" n

/-- **Reads a truth value.** A null takes away what was there. -/
def readTruth (n : Node) : Decode (Option (Option Bool)) := visit n fun n => do
  match n with
  | .scalar _ tag content =>
    match ← resolved tag content with
    | .null => return some none
    | .truth b => return some (some b)
    | .text t => match answerWord? t with
      | some b => return some (some b)
      | none => misfit n "bool"
    | _ => misfit n "bool"
  | n => refuseCollection (if n.tag == nullTag then "*bool" else "bool") n

/-! ## Mappings -/

/-- Sets the keys that a merged mapping may not change. -/
def setMerged (merged? : Option (List Key)) : Decode Unit := modify fun d => { d with merged? }

/-- Reads the entries of a mapping one after the other, except those that a mapping into which it is
merged has itself. What is to be merged into the mapping is returned; the last one counts. -/
def readOwn {κ σ : Type} (readKey : Node → Decode (Option κ)) (toKey : κ → Key)
    (entry : σ → Node → κ → Node → Decode σ) (entries : List (Node × Node)) (start : σ) :
    Decode (σ × Option Node) := do
  let step (acc : σ × Option (List Key) × Option Node) (e : Node × Node) :
      Decode (σ × Option (List Key) × Option Node) := do
    let (s, merged?, source?) := acc
    if isMerge e.1 then return (s, merged?, some e.2)
    match ← readKey e.1 with
    | none => return acc
    | some k =>
      match toKey k, merged? with
      | .collection c, some _ => throw (.incomparable c)
      | .collection _, none => malformed
      | _, none => return (← entry s e.1 k e.2, none, source?)
      | key, some merged =>
        if merged.any key.same then return acc
        return (← entry s e.1 k e.2, some (key :: merged), source?)
  let merged? := (← get).merged?
  setMerged none
  let (s, merged?, source?) ← entries.foldlM step (start, merged?, none)
  setMerged merged?
  return (s, source?)

/-- Notes the key of a mapping into which others are merged. -/
def protectKey (readAny : Node → Decode (Option Key)) (n : Node) : Decode Unit := do
  match ← readAny n with
  | none => return
  | some (.collection c) => throw (.incomparable c)
  | some key => modify fun d => { d with merged? := some (key :: d.merged?.getD []) }

/-- Reads a mapping that is merged into another. -/
def readSource {α : Type} (again : α → Node → Decode α) (a : α) (source : Node) : Decode α := do
  match ← target source with
  | .mapping .. => again a source
  | _ => malformed

/-- Reads what is merged into a mapping: a mapping, an alias of one, or a sequence of such. The
mapping's own entries win over merged ones, and earlier merged ones over later. -/
def readMerged {α : Type} (readAny : Node → Decode (Option Key)) (again : α → Node → Decode α)
    (entries : List (Node × Node)) (source? : Option Node) (a : α) : Decode α := do
  match source? with
  | none => return a
  | some source =>
    let outermost := (← get).merged?.isNone
    if outermost then
      setMerged (some [])
      entries.forM fun e => protectKey readAny e.1
    let a ← match source with
      | .sequence _ _ items => items.foldlM (readSource again) a
      | source => readSource again a source
    if outermost then setMerged none
    return a

/-- Whether all keys of a mapping are texts. -/
def isTextual (entries : List (Node × Node)) : Decode Bool :=
  entries.allM fun e => do
    let tag := (← target e.1).tag
    return tag == strTag || tag == mergeTag

mutual

/-- Reads a node that may be anything. Of a collection nothing remains but what it is. -/
def readAny : (fuel : Nat) → Node → Decode (Option Key)
  | 0, _ => malformed
  | fuel + 1, n => visit n fun n => do
    match n with
    | .scalar _ tag content => return some (← resolved tag content).toKey
    | .sequence _ _ items =>
      items.forM fun i => discard (readAny fuel i)
      return some (.collection .list)
    | .mapping _ _ entries =>
      distinctly entries do
        let textual ← isTextual entries
        readAnyEntries fuel textual entries
        return some (.collection (if textual then .texts else .mapping))
    | .alias .. => malformed

/-- Reads the entries of a mapping that may be anything, with texts for keys or anything. -/
def readAnyEntries : (fuel : Nat) → (textual : Bool) → List (Node × Node) → Decode Unit
  | 0, _, _ => malformed
  | fuel + 1, textual, entries => do
    let again (_ : Unit) (n : Node) : Decode Unit := visit n fun n => do
      match n with
      | .mapping _ _ entries =>
        discard (distinctly entries (some <$> readAnyEntries fuel textual entries))
      | _ => malformed
    let ((), source?) ←
      if textual then
        readOwn readText .text (fun _ _ _ value => discard (readAny fuel value)) entries ()
      else
        readOwn (readAny fuel) id (fun _ _ _ value => discard (readAny fuel value)) entries ()
    readMerged (readAny fuel) again entries source? ()

end

/-- **Reads the entries of a mapping with known fields**, each of which may be set once, and then
those that are merged into it. -/
def readRecord {α : Type} (type : String) (field? : Text → Option (α → Node → Decode α))
    (readAny : Node → Decode (Option Key)) (again : α → Node → Decode α)
    (entries : List (Node × Node)) (a : α) : Decode α := do
  let entry (acc : α × List Text) (key : Node) (name : Text) (value : Node) :
      Decode (α × List Text) := do
    match field? name with
    | none =>
      report (.unknownField key.line name type)
      return acc
    | some read =>
      if acc.2.contains name then
        report (.repeatedField key.line name type)
        return acc
      return (← read acc.1 value, name :: acc.2)
  let ((a, _), source?) ← readOwn readText .text entry entries (a, [])
  readMerged readAny again entries source? a

/-! ## Documents -/

/-- **The value of a document**, and what in it has the wrong type. The reader is told a bound for
the depth of the nodes: no alias is followed inside itself, so that the nodes on the way to a node
are at most those between one alias and the next, over and over. -/
def Document.decode {α : Type} (d : Document) (read : (fuel : Nat) → Node → Decode α) :
    Except DecodeFailure (α × List TypeFault) := do
  let (a, s) ←
    (read ((d.size + 2) * (d.size + 2)) d.root).run { anchored := d.anchored, visits := 1 }
  return (a, s.faults.reverse)

end RobotsTxt.Yaml
