import RobotsTxt.Json.Read
import RobotsTxt.Json.Render
import RobotsTxt.Server.Connection
import RobotsTxt.Server.Delivery
import RobotsTxt.Text.Space

/-!
# Messages on the wire

A client and the server send each other frames: header lines, one of which gives the length, a blank
line, and a JSON value of that length.

* `Header.take`: reads one header line; `Frame.read` reads a whole frame.
* `Envelope.ofJson`: the fields of a message; `Incoming.ofBody`: the message in a frame.
* `Incoming.readAll`: all messages of a client; `Incoming.inTurn`: the order in which they are
  handled.
* `Connection.respond`: the frames with which the server answers a message at once.
* `Connection.serve`: everything that the server writes for everything that it reads.
-/

namespace RobotsTxt

/-! ## Faults -/

/-- What kind of value a message holds where it should hold another. -/
def Json.kindWord : Json → Text
  | .null => utf8 "null"
  | .bool _ => utf8 "bool"
  | .number _ => utf8 "number"
  | .string _ => utf8 "string"
  | .array _ => utf8 "array"
  | .object _ => utf8 "object"

/-- Whether a decimal number is an integer of 64 bits. -/
def isInt64 (n : Decimal) : Bool := 
  n.toInt?.any fun i => -0x8000000000000000 ≤ i && i < 0x8000000000000000

/-- Why a body is no message. -/
inductive MessageFault where
  | malformed (fault : Json.SyntaxFault)
  | version (given : Text)
  /-- A value where one of a given type should stand. A path of names leads to it, unless it stands
  for itself. -/
  | mismatch (found : Text) (path? : Option Text) (type : String)
  deriving Repr, DecidableEq

/-- The wording of a fault. -/
def MessageFault.message : MessageFault → Text
  | .malformed fault => fault.message
  | .version given => utf8 "invalid RPC version " ++ given
  | .mismatch found path? type =>
    let target := match path? with
      | some path => utf8 "struct field wireCombined." ++ path
      | none => utf8 "value"
    utf8 "json: cannot unmarshal " ++ found ++ utf8 " into Go " ++ target ++ utf8 " of type " ++
      utf8 type

/-- Why a connection breaks. -/
inductive WireFault where
  | endOfHeader
  | badHeaderLine (line : Text)
  | badLength (value : Text)
  | lengthNotPositive (length : Int)
  | noLength
  /-- The input ends before a body; `started` tells whether any byte of it was there. -/
  | endOfBody (started : Bool)
  | badMessage (fault : MessageFault)
  | invalidMessage
  deriving Repr, DecidableEq

/-- The wording of a fault. -/
def WireFault.message : WireFault → Text
  | .endOfHeader => utf8 "failed reading header line: EOF"
  | .badHeaderLine line => utf8 "invalid header line " ++ line.quote
  | .badLength value => utf8 "failed parsing Content-Length: " ++ value
  | .lengthNotPositive length => utf8 "invalid Content-Length: " ++ Text.ofInt length
  | .noLength => utf8 "missing Content-Length header"
  | .endOfBody started => utf8 (if started then "unexpected EOF" else "EOF")
  | .badMessage fault => utf8 "unmarshaling jsonrpc message: " ++ fault.message
  | .invalidMessage => utf8 "JSON RPC invalid request"

/-! ## Frames -/

/-- An integer of 32 bits in decimal digits. -/
def int32? (t : Text) : Option Int :=
  match Numeral.takeSign t with
  | (negative, digits) =>
    let n : Int := Numeral.digitsValue 10 digits
    let i := if negative then -n else n
    if !digits.isEmpty && digits.all isDigit && -0x80000000 ≤ i && i < 0x80000000 then some i
    else none

/-- What is known of a header. -/
inductive Header where
  /-- More lines follow; the length is zero as long as none has been given. -/
  | lines (length : Int)
  /-- A body of a given length follows. -/
  | body (length : Nat)
  deriving Repr, DecidableEq

/-- Takes note of a header line, where `length` is the length that has been given so far. -/
def Header.take (length : Int) (line : Text) : Except WireFault Header :=
  let line := line.trimSpace
  if line.isEmpty then if length = 0 then .error .noLength else .ok (.body length.toNat)
  else match line.cut 0x3A with
    | (_, none) => .error (.badHeaderLine line)
    | (name, some value) =>
      if name == utf8 "Content-Length" then
        match int32? value.trimSpace with
        | none => .error (.badLength value.trimSpace)
        | some n => if n ≤ 0 then .error (.lengthNotPositive n) else .ok (.lines n)
      else .ok (.lines length)

namespace Frame

/-- Reads a frame of which a part of the header has been read: the body, and what follows it. The
fuel bounds the number of header lines. -/
def readFrom : (fuel : Nat) → (length : Int) → Text → Except WireFault (Text × Text)
  | 0, _, _ => .error .endOfHeader
  | fuel + 1, length, t =>
    match t.cut 0x0A with
    | (_, none) => .error .endOfHeader
    | (line, some rest) =>
      match Header.take length line with
      | .error e => .error e
      | .ok (.lines length) => readFrom fuel length rest
      | .ok (.body n) =>
        if rest.length < n then .error (.endOfBody !rest.isEmpty)
        else .ok (rest.take n, rest.drop n)

/-- Reads a frame: the body, and what follows it. -/
def read (t : Text) : Except WireFault (Text × Text) := readFrom (t.length + 1) 0 t

/-- The frame of a body. -/
def write (body : Text) : Text :=
  utf8 "Content-Length: " ++ Text.ofNat body.length ++ utf8 "\r\n\r\n" ++ body

end Frame

/-! ## Messages -/

/-- A message from a client. -/
inductive Incoming where
  /-- A request has an identifier, a notification has none. -/
  | call (id? : Option Json) (method : Text) (params : Option Json)
  /-- An answer to something that the server has asked for. -/
  | answer

/-- What is known of a message while its fields are read. -/
structure Envelope where
  id? : Option Json := none
  method : Text := []
  params? : Option Json := none
  /-- The first fault; the fields after it are still read. -/
  fault? : Option MessageFault := none

namespace Envelope

variable (e : Envelope)

/-- Takes note of a fault, unless there has been one before. -/
def note (fault : MessageFault) : Envelope := { e with fault? := e.fault? <|> some fault }

/-- Takes note of a value where one of a given type should stand. -/
def noteKind (v : Json) (path? : Option Text) (type : String) : Envelope :=
  e.note (.mismatch v.kindWord path? type)

/-- Reads the version, which must be the one that is spoken here. -/
def setVersion : Json → Envelope
  | .string t => if t == utf8 "2.0" then e else e.note (.version t)
  | .null => e.note (.version [])
  | v => e.noteKind v none "string"

/-- Reads the identifier: an integer of 64 bits or a text, of which the empty one stands for zero.
-/
def setId : Json → Envelope
  | .null => { e with id? := none }
  | .string t => { e with id? := some (if t.isEmpty then .ofInt 0 else .string t) }
  | v => if v.isNumber isInt64 then { e with id? := some v } else e.noteKind v none "string"

/-- Reads the method, which stands under `name`. -/
def setMethod (name : Text) : Json → Envelope
  | .null => e
  | .string t => { e with method := t }
  | v => e.noteKind v (some name) "string"

/-- Reads the code of an answer's error, to which a path leads. A number that is none is shown as it
is written. -/
def setErrorCode (path : Text) : Json → Envelope
  | .null => e
  | .number n =>
    if isInt64 n then e
    else e.note (.mismatch (utf8 "number " ++ n.spelling) (some path) "int64")
  | v => e.noteKind v (some path) "int64"

/-- Reads the text of an answer's error, to which a path leads. -/
def setErrorMessage (path : Text) : Json → Envelope
  | .null | .string _ => e
  | v => e.noteKind v (some path) "string"

/-- Reads a field of an answer's error, which stands under `error`. -/
def setErrorField (error name : Text) (v : Json) : Envelope :=
  let path := error ++ [0x2E] ++ name
  if name.eqFold (utf8 "code") then e.setErrorCode path v
  else if name.eqFold (utf8 "message") then e.setErrorMessage path v
  else e

/-- Reads an answer's error, which stands under `name`. -/
def setError (name : Text) : Json → Envelope
  | .null => e
  | .object fields => fields.foldl (fun e f => e.setErrorField name f.1 f.2) e
  | v => e.noteKind v (some name) "jsonrpc2.WireError"

/-- Reads a field. Others than these are not looked at. -/
def set (name : Text) (v : Json) : Envelope :=
  if name.eqFold (utf8 "jsonrpc") then e.setVersion v
  else if name.eqFold (utf8 "id") then e.setId v
  else if name.eqFold (utf8 "method") then e.setMethod name v
  else if name.eqFold (utf8 "params") then
    { e with params? := match v with
      | .null => none
      | v => some v }
  else if name.eqFold (utf8 "error") then e.setError name v
  else e

/-- Reads a message. A `null` has no fields. -/
def ofJson : Json → Except MessageFault Envelope
  | .null => .ok {}
  | .object fields =>
    let e := fields.foldl (fun (e : Envelope) f => e.set f.1 f.2) {}
    match e.fault? with
    | some fault => .error fault
    | none => .ok e
  | v => .error (.mismatch v.kindWord none "jsonrpc2.wireCombined")

end Envelope

/-- The message in a body. -/
def Incoming.ofBody (body : Text) : Except WireFault Incoming :=
  match Json.read body with
  | .error e => .error (.badMessage (.malformed e))
  | .ok j =>
    match Envelope.ofJson j with
    | .error e => .error (.badMessage e)
    | .ok e =>
      if !e.method.isEmpty then .ok (.call e.id? e.method e.params?)
      else if e.id?.isSome then .ok .answer
      else .error .invalidMessage

/-- Everything that a client sends: its messages, each with the length of its body, and why there
are no more of them. The fuel bounds the number of frames. -/
def Incoming.readAllFrom : (fuel : Nat) → Text → List (Nat × Incoming) × WireFault
  | 0, _ => ([], .endOfHeader)
  | fuel + 1, t =>
    match Frame.read t with
    | .error e => ([], e)
    | .ok (body, rest) =>
      match Incoming.ofBody body with
      | .error e => ([], e)
      | .ok message =>
        match readAllFrom fuel rest with
        | (more, fault) => ((body.length, message) :: more, fault)

/-- Everything that a client sends, and why there is no more of it. -/
def Incoming.readAll (t : Text) : List (Nat × Incoming) × WireFault := readAllFrom (t.length + 1) t

/-- The method of a message; answers have none. -/
def Incoming.method : Incoming → Text
  | .call _ method _ => method
  | .answer => []

/-- Whether a message is dealt with at its arrival: an answer, or a cancellation. -/
def Incoming.isImmediate : Incoming → Bool
  | .call _ method _ => method == utf8 "$/cancelRequest"
  | .answer => true

/-- Messages in the order in which they are handled, where a longer one means more work. -/
def Incoming.inTurn (messages : List (Nat × Incoming)) : List Incoming :=
  let delivery := Delivery.arrived (messages.map fun m => m.2.method)
  let work (place : Nat) : Nat := (messages[place]?.map Prod.fst).getD 0
  (delivery.turns work).filterMap fun place => messages[place]?.map Prod.snd

/-- What every message holds. -/
def versionTag : String × Json := ("jsonrpc", .ofString "2.0")

/-- The frame that tells a client something. -/
def Message.frame (m : Message) : Text :=
  Frame.write (Json.ofFields
    [versionTag, ("method", .string m.method), ("params", m.params)]).render

/-- The frame that answers a request. -/
def answerFrame (id : Json) (reply : Except Fault Reply) : Text :=
  let outcome := match reply with
    | .ok r => ("result", r.toJson)
    | .error e => ("error", .ofFields [("code", .ofInt e.code), ("message", .string e.message)])
  Frame.write (Json.ofFields [versionTag, outcome, ("id", id)]).render

namespace Connection

variable (c : Connection)

/-- The frames with which the server answers a message. What it does in the background begins at
once. -/
def respond (disk : Disk) : Incoming → List Text × Connection
  | .answer => ([], c)
  | .call id? method params =>
    let r := c.receive disk method params
    let answers := match id? with
      | some id => [answerFrame id r.reply]
      | none => []
    let server := r.connection.server.captureAll
    (r.sent.map Message.frame ++ answers, { r.connection with server })

/-- The frames with which the server answers some messages, one after the other, unless the client
ends the connection before. -/
def respondAll (disk : Disk) : Connection → List Incoming → List Text × Connection
  | c, [] => ([], c)
  | c, m :: ms =>
    match c.respond disk m with
    | (frames, c) =>
      if c.isClosed then (frames, c)
      else match respondAll disk c ms with
        | (more, c) => (frames ++ more, c)

/-- Everything that the server writes for everything that it reads, and why the connection breaks
unless the client ends it. Reading is fast: all messages have arrived before one is handled.
Handling them is fast too: all have been handled before something ends in the background. -/
def serve (disk : Disk) (input : Text) : Text × Option WireFault :=
  match Incoming.readAll input with
  | (messages, fault) =>
    match messages.partition fun m => m.2.isImmediate with
    | (immediate, others) =>
      match c.respondAll disk (immediate.map Prod.snd ++ Incoming.inTurn others) with
      | (frames, c) =>
        match c.settleInTurn with
        | (later, c) =>
          ((frames ++ later.map Message.frame).flatten, if c.isClosed then none else some fault)

end Connection

end RobotsTxt
