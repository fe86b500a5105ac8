import RobotsTxt.Document.Basic

/-!
# Display categories

Every token that a document really contains has a display category, except those of kind `other`.

* `Category.ofToken?`: the category of a kind of token.
* `Document.classify`: the classified tokens that touch a range, in textual order.
-/

namespace RobotsTxt

/-- How a token is displayed. -/
inductive Category where
  | comment
  | delimiter
  | propertyName
  | propertyValue
  deriving Repr, DecidableEq

namespace Category

/-- Every category, in the order of their codes. -/
def all : List Category := [.comment, .delimiter, .propertyName, .propertyValue]

/-- The code of a category. -/
def code : Category → Nat
  | .comment => 0
  | .delimiter => 1
  | .propertyName => 2
  | .propertyValue => 3

/-- The name of a category. -/
def label : Category → Text
  | .comment => utf8 "Comment"
  | .delimiter => utf8 "Delimiter"
  | .propertyName => utf8 "PropertyName"
  | .propertyValue => utf8 "PropertyValue"

/-- The name of the category with a given code. -/
def labelOfCode (code : Nat) : Text := ((all[code]?).map label).getD (utf8 "Unknown")

/-- The category of a kind of token. -/
def ofToken? : TokenKind → Option Category
  | .comment => some .comment
  | .delimiter => some .delimiter
  | .name => some .propertyName
  | .value => some .propertyValue
  | .other => none

end Category

/-- A span and the category in which it is displayed. -/
structure Classification where
  span : Span
  category : Category
  deriving Repr, DecidableEq

/-- The classification of a token that is really there and touches a range. -/
def Token.classify? (range : Span) (t : Token) : Option Classification :=
  if t.missing || !t.span.touches range then none
  else (Category.ofToken? t.kind).map fun c => ⟨t.span, c⟩

/-- The classified tokens of a document that touch a range, in textual order. -/
def Document.classify (d : Document) (range : Span) : List Classification :=
  d.allTokens.filterMap (Token.classify? range)

end RobotsTxt
