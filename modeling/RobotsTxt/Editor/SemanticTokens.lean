import RobotsTxt.Category
import RobotsTxt.Position

/-!
# Semantic tokens

The display categories of a document's tokens, as the list of numbers in which editors take them:
five for each token, which are the distance in lines from the token before it, the distance in
characters when that is on the same line and else the character, the length, the category and no
modifiers.

* `encodeTokens`: the numbers of some classified spans.
-/

namespace RobotsTxt

/-- Why classified spans cannot be written as numbers. -/
inductive TokenFault where
  | span (fault : SpanFault)
  | severalLines (span : Span)
  deriving Repr, DecidableEq

/-- The wording of a fault. -/
def TokenFault.message : TokenFault → Text
  | .span fault => fault.message
  | .severalLines s => utf8 "bug: token " ++ s.render ++ utf8 " spans multiple lines"

/-- What the categories are called, in the order of their codes. -/
def tokenLegend : List String := ["comment", "operator", "property", "string"]

/-- The numbers of some classified spans of a text that come after a token at a given place. -/
def encodeTokensFrom (t : Text) : (line character : UInt32) → List Classification →
    Except TokenFault (List UInt32)
  | _, _, [] => .ok []
  | line, character, c :: cs =>
    if c.span.isEmpty then encodeTokensFrom t line character cs
    else match t.rangeOf c.span with
      | .error e => .error (.span e)
      | .ok r =>
        if r.start.line ≠ r.stop.line then .error (.severalLines c.span)
        else
          let line' := UInt32.ofNat r.start.line
          let character' := UInt32.ofNat r.start.character
          let down := line' - line
          let right := if down = 0 then character' - character else character'
          let length := UInt32.ofNat r.stop.character - character'
          (encodeTokensFrom t line' character' cs).map fun rest =>
            down :: right :: length :: UInt32.ofNat c.category.code :: 0 :: rest

/-- The numbers of some classified spans of a text. Empty ones are left out. -/
def encodeTokens (t : Text) (cs : List Classification) : Except TokenFault (List UInt32) :=
  encodeTokensFrom t 0 0 cs

end RobotsTxt
