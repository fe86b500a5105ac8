import RobotsTxt.Json.Read
import RobotsTxt.Server.Fault
import RobotsTxt.Server.Method

/-!
# Requests

What a client asks for, read from the name of a method and its parameters. Parameters and fields
that are absent or `null` count as empty, and a field of a wrong type makes the request unreadable.

* `Request`: a request that has been read.
* `Request.read`: the request with a given method and given parameters.
-/

namespace RobotsTxt

/-- What a client asks for. -/
inductive Request where
  | start (root : Text) (options : Option Json)
  | initialized
  | shutdown
  | exit
  | didOpen (uri : Text) (version : Int) (text : Text)
  | didChange (uri : Text) (version : Int) (changes : List ContentChange)
  | didClose (uri : Text)
  | didSave (uri : Text)
  | didChangeConfiguration (settings : Option Json)
  | semanticTokens (uri : Text) (range? : Option Range)
  | documentHighlight (uri : Text) (position : Position)
  | diagnostic (uri : Text) (previous : Text)
  | formatting (uri : Text)
  | hover (uri : Text) (position : Position)
  | documentSymbol (uri : Text)
  | documentLink (uri : Text)
  | completion (uri : Text) (position : Position)

/-! ## Fields -/

namespace Json

variable (j : Json)

/-- What a field says in the end; a field that is `null` says nothing. -/
def present? (name : String) : Option Json := (j.valuesOf name).foldl updated none

/-- The value that a field is given last. -/
def last? (name : String) : Option Json := (j.valuesOf name).getLast?.map distinct

/-- An object in a field. -/
def objectAt (name : String) : Json := (j.present? name).getD (.object [])

/-- A text in a field; empty when there is none. -/
def textAt (name : String) : Text :=
  match j.present? name with
  | some (.string t) => t
  | _ => []

/-- An integer in a field; zero when there is none. -/
def intAt (name : String) : Int :=
  match j.present? name with
  | some (.number n) => n.toInt?.getD 0
  | _ => 0

/-- Items that are given where there are others: each updates the one in its place. -/
def updatedItems : List Json → List Json → List Json
  | old, [] => old
  | [], new => new
  | o :: old, n :: new => (updated (some o) n).getD .null :: updatedItems old new

/-- What is known of a list while its field is read, and what another value for it makes of it. The
items past the end of a shorter list come back when it grows again; only an empty list and `null`
take them away. -/
def updatedList (known : List Json × Nat) : Json → List Json × Nat
  | .array new => if new.isEmpty then ([], 0) else (updatedItems known.1 new, new.length)
  | .null => ([], 0)
  | _ => known

/-- A list in a field; empty when there is none. -/
def itemsAt (name : String) : List Json :=
  match (j.valuesOf name).foldl updatedList ([], 0) with
  | (items, count) => items.take count

/-- An object in a field that may be left out; `null` takes away what was there. -/
def optionalAt (name : String) : Option Json :=
  (j.valuesOf name).foldl (fun old? v =>
    match v with
    | .null => none
    | v => updated old? v) none

/-- The address of a document in a field, in its one spelling. -/
def uriAt (name : String) : Text := (Uri.canonical (j.textAt name)).toOption.getD []

/-- The position that an object holds. -/
def toPosition : Position := ⟨(j.intAt "line").toNat, (j.intAt "character").toNat⟩

/-- The range that an object holds. -/
def toRange : Range := ⟨(j.objectAt "start").toPosition, (j.objectAt "end").toPosition⟩

/-- The content change that an object holds. -/
def toContentChange : ContentChange := ⟨(j.optionalAt "range").map toRange, j.textAt "text"⟩

/-- The address of the document that parameters are about. -/
def documentUri : Text := (j.objectAt "textDocument").uriAt "uri"

/-- The position that parameters are about. -/
def position : Position := (j.objectAt "position").toPosition

end Json

/-! ## Methods -/

namespace Request

/-- The request of parameters that tell the state of a document. -/
def ofContent (j : Json) : Request :=
  let d := j.objectAt "textDocument"
  .didOpen (d.uriAt "uri") (d.intAt "version") (d.textAt "text")

/-- The request of parameters that change a document. -/
def ofChanges (j : Json) : Request :=
  let d := j.objectAt "textDocument"
  .didChange (d.uriAt "uri") (d.intAt "version")
    ((j.itemsAt "contentChanges").map Json.toContentChange)

/-- The methods that the server offers, with the requests that their parameters make. -/
def offered : List (String × (Json → Request)) :=
  [("initialize", fun j => .start (j.uriAt "rootUri") (j.last? "initializationOptions")),
    ("initialized", fun _ => .initialized),
    ("textDocument/didOpen", ofContent),
    ("textDocument/didChange", ofChanges),
    ("textDocument/didClose", fun j => .didClose j.documentUri),
    ("textDocument/didSave", fun j => .didSave j.documentUri),
    ("workspace/didChangeConfiguration", fun j => .didChangeConfiguration (j.last? "settings")),
    ("textDocument/semanticTokens/full", fun j => .semanticTokens j.documentUri none),
    ("textDocument/semanticTokens/range", fun j =>
      .semanticTokens j.documentUri (some (j.objectAt "range").toRange)),
    ("textDocument/documentHighlight", fun j => .documentHighlight j.documentUri j.position),
    ("textDocument/diagnostic", fun j =>
      .diagnostic j.documentUri (j.textAt "previousResultId")),
    ("textDocument/formatting", fun j => .formatting j.documentUri),
    ("textDocument/hover", fun j => .hover j.documentUri j.position),
    ("textDocument/documentSymbol", fun j => .documentSymbol j.documentUri),
    ("textDocument/documentLink", fun j => .documentLink j.documentUri),
    ("textDocument/completion", fun j => .completion j.documentUri j.position)]

/-- The request that the parameters of a method make, if the server offers the method. -/
def ofParams? (method : Text) (params : Json) : Option Request :=
  (offered.find? fun m => utf8 m.1 == method).map fun m => m.2 params

/-- **The request with a given method and given parameters.** Two methods take no parameters and do
not look at them. The parameters of any other must have its shape, even if the server does not offer
it. -/
def read (method : Text) (params? : Option Json) : Except Fault Request :=
  let params := params?.getD .null
  if method == utf8 "shutdown" then .ok .shutdown
  else if method == utf8 "exit" then .ok .exit
  else match Method.shape? method with
    | none => .error (.unknownMethod method)
    | some shape =>
      if !shape.accepts params then .error .unreadable
      else match ofParams? method params with
        | some r => .ok r
        | none => .error .unsupported

end Request

end RobotsTxt
