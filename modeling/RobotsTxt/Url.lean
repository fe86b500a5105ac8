import RobotsTxt.Address

/-!
# Web addresses

The parts of a URL that matter here, read from its text: the scheme, the host and the path. Escape
sequences are checked and decoded where the URL grammar allows them.

* `Url.parse`: a URL reference; `Url.parseRequest`: a URL that stands for a whole request, which has
  no fragment and is absolute.
* `Url.Fault`: why a text is no URL, and `Url.ParseError.message`, the report of it.
* `Url.isWeb`: whether a URL is an absolute one of the Web.
* `Url.escapePath`: a path with escape sequences where they are needed.
-/

namespace RobotsTxt

/-- The parts of a URL. -/
structure Url where
  /-- In lower case; empty when there is none. -/
  scheme : Text := []
  /-- With the port and without user information; empty when there is none. -/
  host : Text := []
  /-- Decoded. -/
  path : Text := []
  deriving Repr, DecidableEq

namespace Url

/-- Why a text is no URL. -/
inductive Fault where
  | controlCharacter
  | empty
  | missingScheme
  | notARequest
  | colonInFirstSegment
  | missingBracket
  | badLiteral
  | badAddress (cause : Address.ReadError)
  | badPort (port : Text)
  | badUserInfo
  | badEscape (escape : Text)
  | badHostCharacter (c : UInt8)
  deriving Repr, DecidableEq

/-- The wording of a fault. -/
def Fault.message : Fault → Text
  | .controlCharacter => utf8 "net/url: invalid control character in URL"
  | .empty => utf8 "empty url"
  | .missingScheme => utf8 "missing protocol scheme"
  | .notARequest => utf8 "invalid URI for request"
  | .colonInFirstSegment => utf8 "first path segment in URL cannot contain colon"
  | .missingBracket => utf8 "missing ']' in host"
  | .badLiteral => utf8 "invalid IP-literal"
  | .badAddress cause => utf8 "invalid host: " ++ cause.message
  | .badPort port => utf8 "invalid port " ++ port.quote ++ utf8 " after host"
  | .badUserInfo => utf8 "net/url: invalid userinfo"
  | .badEscape escape => utf8 "invalid URL escape " ++ escape.quote
  | .badHostCharacter c => utf8 "invalid character " ++ Text.quote [c] ++ utf8 " in host name"

/-- A text that is no URL, and why. -/
structure ParseError where
  text : Text
  fault : Fault
  deriving Repr, DecidableEq

/-- The report of a text that is no URL. -/
def ParseError.message (e : ParseError) : Text :=
  utf8 "parse " ++ e.text.quote ++ utf8 ": " ++ e.fault.message

/-! ## Escape sequences -/

/-- The parts of a URL that have rules of their own for escape sequences. -/
inductive Part where
  | host
  /-- The zone of a bracketed host. -/
  | zone
  | other
  deriving Repr, DecidableEq

/-- The letters, digits and marks that stand for themselves everywhere. -/
def isUnreserved (b : UInt8) : Bool :=
  isLetter b || isDigit b || b == 0x2D || b == 0x5F || b == 0x2E || b == 0x7E

/-- The ASCII characters that may stand in a host. -/
def isHostByte (b : UInt8) : Bool := isUnreserved b || (utf8 "!$&'()*+,;=:[]<>\"").contains b

/-- Whether the byte `v`, written as `escape`, may be escaped in a part. -/
def escapeAllowed (part : Part) (escape : Text) (v : UInt8) : Bool :=
  match part with
  | .host => 0x80 ≤ v || escape == utf8 "%25"
  | .zone => escape == utf8 "%25" || v == 0x20 || isHostByte v
  | .other => true

/-- Whether a byte may stand for itself in a part. -/
def byteAllowed (part : Part) (b : UInt8) : Bool :=
  match part with
  | .host | .zone => 0x80 ≤ b || isHostByte b
  | .other => true

/-- Decodes the escape sequences of a part, where the first `skip` bytes have been dealt with. -/
def unescapeFrom (part : Part) : (skip : Nat) → Text → Except Fault Text
  | _, [] => .ok []
  | skip + 1, _ :: t => unescapeFrom part skip t
  | 0, 0x25 :: t =>
    match t with
    | x :: y :: _ =>
      match hexValue? x, hexValue? y with
      | some h, some l =>
        if escapeAllowed part [0x25, x, y] (.ofNat (16 * h + l)) then
          (unescapeFrom part 2 t).map (.ofNat (16 * h + l) :: ·)
        else .error (.badEscape [0x25, x, y])
      | _, _ => .error (.badEscape [0x25, x, y])
    | _ => .error (.badEscape (0x25 :: t))
  | 0, b :: t =>
    if byteAllowed part b then (unescapeFrom part 0 t).map (b :: ·)
    else .error (.badHostCharacter b)

/-- Decodes the escape sequences of a part. -/
def unescape (part : Part) (t : Text) : Except Fault Text := unescapeFrom part 0 t

/-- A byte as an escape sequence with capital digits. -/
def escapeByte (b : UInt8) : Text :=
  let digit (n : Nat) : UInt8 := .ofNat (if n < 10 then 0x30 + n else 0x37 + n)
  [0x25, digit (b.toNat / 16), digit (b.toNat % 16)]

/-- A path with every byte escaped that may not stand for itself there. -/
def escapePath (t : Text) : Text :=
  t.flatMap fun b => if isUnreserved b || (utf8 "$&+,/:;=@").contains b then [b] else escapeByte b

/-! ## Parts -/

/-- Whether a text is empty or a colon with digits after it. -/
def isOptionalPort : Text → Bool
  | [] => true
  | b :: t => b == 0x3A && t.all isDigit

/-- The bytes that may stand in user information. -/
def isUserInfoByte (b : UInt8) : Bool :=
  isLetter b || isDigit b || (utf8 "-._:~!$&'()*+,;=%@").contains b

/-- Splits a text in front of the first place where `mark` stands. -/
def splitAt? (mark : Text) : Text → Option (Text × Text)
  | [] => if mark.isEmpty then some ([], []) else none
  | b :: t =>
    if mark.isPrefixOf (b :: t) then some ([], b :: t)
    else (splitAt? mark t).map fun (before, rest) => (b :: before, rest)

/-- Decodes the escape sequences of a bracketed host. Its zone has rules of its own. -/
def unescapeLiteral (t : Text) : Except Fault Text :=
  match splitAt? (utf8 "%25") t with
  | some (address, zone) => do
    let address ← unescape .host address
    let zone ← unescape .zone zone
    return address ++ zone
  | none => unescape .host t

/-- The decoded content of a bracketed host, which is an address of hexadecimal groups. -/
def readLiteral (t : Text) : Except Fault Text := do
  let literal ← unescapeLiteral t
  match Address.family literal with
  | .error e => .error (.badAddress e)
  | .ok .dotted => .error .badLiteral
  | .ok .grouped => .ok literal

/-- The decoded host of an authority, its port included. Brackets stand around a whole host. -/
def readHost (t : Text) : Except Fault Text :=
  match t.cutLast 0x5B with
  | (some [], inside) =>
    match inside.cutLast 0x5D with
    | (none, _) => .error .missingBracket
    | (some literal, port) =>
      if !isOptionalPort port then .error (.badPort port)
      else do
        let port ← unescape .host port
        let literal ← readLiteral literal
        return 0x5B :: literal ++ 0x5D :: port
  | (some _, _) => .error .badLiteral
  | (none, _) =>
    match t.cutLast 0x3A with
    | (some _, port) =>
      if isOptionalPort (0x3A :: port) then unescape .host t else .error (.badPort (0x3A :: port))
    | (none, _) => unescape .host t

/-- The decoded host of an authority, whose user information is checked and dropped. -/
def readAuthority (t : Text) : Except Fault Text :=
  match t.cutLast 0x40 with
  | (none, host) => readHost host
  | (some user, host) => do
    let host ← readHost host
    if !user.all isUserInfoByte then throw .badUserInfo
    let (name, password?) := user.cut 0x3A
    let _ ← unescape .other name
    let _ ← unescape .other (password?.getD [])
    return host

/-- The bytes of a scheme after its first letter. -/
def isSchemeByte (b : UInt8) : Bool :=
  isLetter b || isDigit b || b == 0x2B || b == 0x2D || b == 0x2E

/-- The scheme of a URL and what follows its colon; an empty scheme when there is none. -/
def splitScheme (t : Text) : Except Fault (Text × Text) :=
  match t.span isSchemeByte with
  | ([], 0x3A :: _) => .error .missingScheme
  | (scheme, 0x3A :: rest) =>
    if scheme.head?.any isLetter then .ok (scheme, rest) else .ok ([], t)
  | _ => .ok ([], t)

/-- The part of a URL before its query. -/
def dropQuery (t : Text) : Text := (t.cut 0x3F).1

/-! ## Whole URLs -/

/-- Control characters may stand nowhere. -/
def isControl (b : UInt8) : Bool := b < 0x20 || b == 0x7F

/-- The authority and the path of what follows two slashes. -/
def splitAuthority (t : Text) : Text × Text := t.span (· != 0x2F)

/-- The URL with a given scheme, and with the rest of its text up to the query. -/
def readAfterScheme (request : Bool) (scheme rest : Text) : Except Fault Url := do
  let rooted := rest.head? == some 0x2F
  if !rooted && !scheme.isEmpty then return { scheme }
  if !rooted && request then throw .notARequest
  if !rooted && (rest.takeWhile (· != 0x2F)).contains 0x3A then throw .colonInFirstSegment
  let slashes := (rest.takeWhile (· == 0x2F)).length
  if 2 ≤ slashes && (!scheme.isEmpty || (!request && slashes == 2)) then
    let (authority, path) := splitAuthority (rest.drop 2)
    let host ← readAuthority authority
    let path ← unescape .other path
    return { scheme, host, path }
  else
    let path ← unescape .other rest
    return { scheme, path }

/-- Reads a URL without a fragment. A request must not be empty and must be rooted. -/
def readUrl (request : Bool) (t : Text) : Except Fault Url := do
  if t.any isControl then throw .controlCharacter
  if t.isEmpty && request then throw .empty
  if t == utf8 "*" then return { path := t }
  let (scheme, rest) ← splitScheme t
  readAfterScheme request (scheme.map lowerByte) (dropQuery rest)

/-- **The URL that a text spells.** A fragment is checked and dropped. -/
def parse (t : Text) : Except ParseError Url :=
  match t.cut 0x23 with
  | (main, fragment?) =>
    match readUrl false main with
    | .error e => .error ⟨main, e⟩
    | .ok url =>
      match unescape .other (fragment?.getD []) with
      | .error e => .error ⟨t, e⟩
      | .ok _ => .ok url

/-- The URL of a whole request. -/
def parseRequest (t : Text) : Except ParseError Url :=
  match readUrl true t with
  | .error e => .error ⟨t, e⟩
  | .ok url => .ok url

/-- Whether a URL is absolute and has one of the schemes of the Web. -/
def isWeb (u : Url) : Bool :=
  (u.scheme == utf8 "http" || u.scheme == utf8 "https") && !u.host.isEmpty

/-- Whether a text spells an absolute URL of the Web. -/
def isWebText (t : Text) : Bool :=
  match parse t with
  | .ok u => u.isWeb
  | .error _ => false

end Url

end RobotsTxt
