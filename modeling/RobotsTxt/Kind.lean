import RobotsTxt.Text.Bytes

/-!
# Kinds of syntax nodes

Kinds form a hierarchy with a single root: a user-agent line is a directive, a directive is a line,
a line is a node. A code outside the hierarchy is kept as `unassigned`.

* `Kind.ancestors`: a kind, the kind it derives from, and so on up to the root.
* `Kind.isA`: whether a kind is or derives from another; an error for a code outside the hierarchy.
-/

namespace RobotsTxt

/-- The kinds of syntax nodes. -/
inductive Kind where
  | node
  | document
  | record
  | line
  | commentLine
  | directive
  | userAgent
  | rule
  | sitemap
  | crawlDelay
  | extension
  | unassigned (code : UInt8)
  deriving Repr, DecidableEq

/-- A kind outside the hierarchy was asked what it derives from. -/
structure KindOutsideHierarchy where
  kind : Kind
  deriving Repr, DecidableEq

namespace Kind

/-- Every kind of the hierarchy, in the order of their codes. -/
def all : List Kind :=
  [.node, .document, .record, .line, .commentLine, .directive, .userAgent, .rule, .sitemap,
    .crawlDelay, .extension]

/-- The kind with a given code. -/
def ofCode (code : UInt8) : Kind := (all[code.toNat]?).getD (.unassigned code)

/-- The name of a kind. -/
def name : Kind → Text
  | .node => utf8 "Node"
  | .document => utf8 "Document"
  | .record => utf8 "Record"
  | .line => utf8 "Line"
  | .commentLine => utf8 "CommentLine"
  | .directive => utf8 "Directive"
  | .userAgent => utf8 "UserAgent"
  | .rule => utf8 "Rule"
  | .sitemap => utf8 "Sitemap"
  | .crawlDelay => utf8 "CrawlDelay"
  | .extension => utf8 "Extension"
  | .unassigned code => utf8 "Kind(" ++ Text.ofNat code.toNat ++ utf8 ")"

/-- The kind that a kind derives from directly. -/
def parent? : Kind → Option Kind
  | .node => none
  | .document | .record | .line => some .node
  | .commentLine | .directive => some .line
  | .userAgent | .rule | .sitemap | .crawlDelay | .extension => some .directive
  | .unassigned _ => none

/-- A kind and all kinds it derives from, the nearest first. -/
def ancestors : Kind → List Kind
  | .node => [.node]
  | .document => [.document, .node]
  | .record => [.record, .node]
  | .line => [.line, .node]
  | .commentLine => [.commentLine, .line, .node]
  | .directive => [.directive, .line, .node]
  | .userAgent => [.userAgent, .directive, .line, .node]
  | .rule => [.rule, .directive, .line, .node]
  | .sitemap => [.sitemap, .directive, .line, .node]
  | .crawlDelay => [.crawlDelay, .directive, .line, .node]
  | .extension => [.extension, .directive, .line, .node]
  | .unassigned code => [.unassigned code]

/-- Whether a kind is `base` or derives from it. -/
def derives (k base : Kind) : Bool := k.ancestors.contains base

/-- Whether a kind is `base` or derives from it, where a code outside the hierarchy derives from
nothing that could be answered. -/
def isA (k base : Kind) : Except KindOutsideHierarchy Bool :=
  match k with
  | .unassigned _ => if k = base then .ok true else .error ⟨k⟩
  | _ => .ok (k.derives base)

theorem ancestors_eq (k : Kind) :
    k.ancestors = k :: (match k.parent? with | some p => p.ancestors | none => []) := by
  cases k <;> rfl

end Kind

/-- The message for a kind outside the hierarchy. -/
def KindOutsideHierarchy.message (e : KindOutsideHierarchy) : Text :=
  utf8 "bug: kind " ++ e.kind.name ++ utf8 " is missing from the is-a table"

end RobotsTxt
