import RobotsTxt.Span

/-!
# Tokens

The smallest pieces of a document. Where a line lacks a required piece, an empty token marked as
missing stands in its place.

* `Token.at`: the token that stands at an offset with a given text.
* `Token.missingAt`: the stand-in for an absent token.
-/

namespace RobotsTxt

/-- What a token is. -/
inductive TokenKind where
  | other
  | comment
  | delimiter
  | name
  | value
  deriving Repr, DecidableEq

namespace TokenKind

/-- The kind with a given code; a code without a kind of its own is `other`. -/
def ofCode : Nat → TokenKind
  | 1 => .comment
  | 2 => .delimiter
  | 3 => .name
  | 4 => .value
  | _ => .other

/-- The name of a token kind. -/
def label : TokenKind → Text
  | .other => utf8 "Other"
  | .comment => utf8 "Comment"
  | .delimiter => utf8 "Delimiter"
  | .name => utf8 "Name"
  | .value => utf8 "Value"

end TokenKind

/-- A piece of a document. -/
structure Token where
  kind : TokenKind
  value : Text
  span : Span
  /-- Set on the stand-in for a piece that the document lacks. -/
  missing : Bool
  deriving Repr, DecidableEq

namespace Token

/-- The token of a text that stands at an offset. -/
def «at» (kind : TokenKind) (start : Nat) (value : Text) : Token :=
  { kind, value, span := ⟨start, start + value.length⟩, missing := false }

/-- The stand-in for a token that should stand at an offset. -/
def missingAt (kind : TokenKind) (pos : Nat) : Token :=
  { kind, value := [], span := .empty pos, missing := true }

end Token

end RobotsTxt
