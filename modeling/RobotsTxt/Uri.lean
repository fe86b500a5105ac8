import RobotsTxt.Url

/-!
# Document addresses

A client names documents by URI. Those of files are brought into one spelling, so that two spellings
of one file name the same document; any other URI is kept as it is.

* `Uri.canonical`: the one spelling of a URI.
* `Uri.path`: the path of a file.
-/

namespace RobotsTxt.Uri

/-- What the URI of a file starts with. -/
def fileMark : Text := utf8 "file://"

/-- The letters among the first 256 code points. -/
def isLatinLetter (b : UInt8) : Bool :=
  isLetter b || b == 0xAA || b == 0xB5 || b == 0xBA || (0xC0 ≤ b && b != 0xD7 && b != 0xF7)

/-- The capital of one of the first 256 code points, in UTF-8. -/
def upperLatin (b : UInt8) : Text :=
  let c := b.toNat
  if (0x61 ≤ c && c ≤ 0x7A) || (0xE0 ≤ c && c ≤ 0xFE && c != 0xF7) then encodeRune (c - 0x20)
  else if c == 0xB5 then encodeRune 0x39C
  else if c == 0xFF then encodeRune 0x178
  else encodeRune c

/-- Whether a path starts with a slash, a drive letter and a colon, and goes on. -/
def isDrivePath : Text → Bool
  | 0x2F :: b :: 0x3A :: _ :: _ => isLatinLetter b
  | _ => false

/-- A path after its first slash, with the drive letter as a capital. -/
def upperDrive : Text → Text
  | b :: rest => upperLatin b ++ rest
  | [] => []

/-- The one spelling of a URI. A file URI with two slashes gets its third, escape sequences are kept
only where they are needed, and a drive letter is a capital. -/
def canonical (uri : Text) : Except Url.Fault Text :=
  if !fileMark.isPrefixOf uri then .ok uri
  else
    let rest := uri.drop fileMark.length
    let escaped := if rest.head? == some 0x2F then rest else 0x2F :: rest
    match Url.unescape .other escaped with
    | .error e => .error e
    | .ok path =>
      let path := if isDrivePath path then 0x2F :: upperDrive (path.drop 1) else path
      .ok (fileMark ++ Url.escapePath path)

/-- Why a URI has no path. -/
inductive PathFault where
  | notUrl (fault : Url.ParseError)
  | notFile (scheme uri : Text)
  deriving Repr, DecidableEq

/-- The wording of a fault. -/
def PathFault.message : PathFault → Text
  | .notUrl fault => fault.message
  | .notFile scheme uri =>
    utf8 "only file URIs are supported, got " ++ scheme.quote ++ utf8 " from " ++ uri.quote

/-- The bytes that make it necessary to look at a URI more closely. -/
def isIntricate (b : UInt8) : Bool := Url.isControl b || (utf8 "%+:@&?").contains b

/-- The path of a file URI; a path with a drive has no slash in front. -/
def path (uri : Text) : Except PathFault Text :=
  let rest := uri.drop fileMark.length
  if uri.isEmpty then .ok []
  else if fileMark.isPrefixOf uri && rest.head? == some 0x2F && !rest.any isIntricate then .ok rest
  else match Url.parseRequest uri with
    | .error e => .error (.notUrl e)
    | .ok url =>
      if url.scheme != utf8 "file" then .error (.notFile url.scheme uri)
      else if isDrivePath url.path then .ok (upperDrive (url.path.drop 1))
      else .ok url.path

end RobotsTxt.Uri
