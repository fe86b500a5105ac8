import RobotsTxt.Editor.Completion
import RobotsTxt.Editor.Hover
import RobotsTxt.Editor.Links
import RobotsTxt.Editor.Outline
import RobotsTxt.Editor.TextEdit
import RobotsTxt.Server.Basic

/-!
# Replies

What the server answers, and how answers and messages are written for the client.

* `Reply`: an answer; `Reply.toJson` writes it.
* `Message.method`, `Message.params`: a message in the client's terms.
-/

namespace RobotsTxt

/-- What the server answers. -/
inductive Reply where
  | nothing
  /-- What the server can do. -/
  | capabilities
  | tokens (resultId : Text) (data : List UInt32)
  | highlights (ranges : List Range)
  | report (resultId : Text) (items : List Marker)
  /-- The diagnostics are those that were reported under the same identifier. -/
  | unchanged (resultId : Text)
  | edits (items : List TextEdit)
  | hover (shown? : Option Hover)
  | outline (symbols : List RecordSymbol)
  | links (items : List Link)
  | completions (items : List CompletionItem)
  deriving Repr, DecidableEq

/-! ## Parts of answers -/

/-- A position in the client's terms. -/
def Position.toJson (p : Position) : Json :=
  .ofFields [("line", .ofInt p.line), ("character", .ofInt p.character)]

/-- A range in the client's terms. -/
def Range.toJson (r : Range) : Json :=
  .ofFields [("start", r.start.toJson), ("end", r.stop.toJson)]

/-- A marker in the client's terms. -/
def Marker.toJson (m : Marker) : Json :=
  .ofFields [("range", m.range.toJson), ("severity", .ofInt m.level), ("code", .string m.code),
    ("source", .string m.source), ("message", .string m.message)]

/-- A text in Markdown. -/
def markdownJson (t : Text) : Json :=
  .ofFields [("kind", .ofString "markdown"), ("value", .string t)]

/-- An edit in the client's terms. -/
def TextEdit.toJson (e : TextEdit) : Json :=
  .ofFields [("range", e.range.toJson), ("newText", .string e.newText)]

/-- What is shown at a place, in the client's terms. -/
def Hover.toJson (h : Hover) : Json :=
  .ofFields [("contents", markdownJson h.contents), ("range", h.range.toJson)]

/-- A directive of an outline in the client's terms. -/
def DirectiveSymbol.toJson (s : DirectiveSymbol) : Json :=
  .ofFields ([("name", .string s.name)] ++
    Json.optional "detail" (if s.detail.isEmpty then none else some (.string s.detail)) ++
    [("kind", .ofInt 7), ("range", s.range.toJson), ("selectionRange", s.selection.toJson)])

/-- A record of an outline in the client's terms. -/
def RecordSymbol.toJson (s : RecordSymbol) : Json :=
  .ofFields ([("name", .string s.name), ("kind", .ofInt 3), ("range", s.range.toJson),
      ("selectionRange", s.selection.toJson)] ++
    Json.optional "children"
      (if s.children.isEmpty then none else some (.array (s.children.map DirectiveSymbol.toJson))))

/-- A link in the client's terms. -/
def Link.toJson (l : Link) : Json :=
  .ofFields [("range", l.range.toJson), ("target", .string l.target)]

/-- An offered name in the client's terms. -/
def CompletionItem.toJson (i : CompletionItem) : Json :=
  .ofFields [("label", .string i.directive.name), ("kind", .ofInt 10), ("detail", .string i.detail),
    ("documentation", markdownJson i.directive.markdown), ("sortText", .string i.sortText),
    ("textEdit", TextEdit.toJson ⟨i.range, i.newText⟩)]

/-- The version of the server that clients are told. -/
def serverVersion : String := "dev"

/-- What the server can do, in the client's terms. -/
def capabilitiesJson : Json :=
  .ofFields
    [("capabilities", .ofFields
      [("positionEncoding", .ofString "utf-16"),
        ("textDocumentSync", .ofFields
          [("openClose", .bool true), ("change", .ofInt 2), ("save", .ofFields [])]),
        ("completionProvider", .ofFields []),
        ("hoverProvider", .bool true),
        ("documentHighlightProvider", .bool true),
        ("documentSymbolProvider", .bool true),
        ("documentLinkProvider", .ofFields []),
        ("documentFormattingProvider", .ofFields []),
        ("semanticTokensProvider", .ofFields
          [("legend", .ofFields
            [("tokenTypes", .array (tokenLegend.map Json.ofString)),
              ("tokenModifiers", .array [])]),
            ("range", .bool true), ("full", .bool true)]),
        ("diagnosticProvider", .ofFields
          [("identifier", .string Diagnostic.defaultSource), ("interFileDependencies", .bool false),
            ("workspaceDiagnostics", .bool false)])]),
      ("serverInfo", .ofFields
        [("name", .ofString "robotsls"), ("version", .ofString serverVersion)])]

/-- An answer in the client's terms. -/
def Reply.toJson : Reply → Json
  | .nothing | .hover none => .null
  | .capabilities => capabilitiesJson
  | .tokens resultId data =>
    .ofFields [("resultId", .string resultId), ("data", .array (data.map fun n => .ofInt n.toNat))]
  | .highlights ranges =>
    .array (ranges.map fun r => .ofFields [("range", r.toJson), ("kind", .ofInt 1)])
  | .report resultId items =>
    .ofFields [("kind", .ofString "full"), ("resultId", .string resultId),
      ("items", .array (items.map Marker.toJson))]
  | .unchanged resultId =>
    .ofFields [("kind", .ofString "unchanged"), ("resultId", .string resultId)]
  | .edits es => .array (es.map TextEdit.toJson)
  | .hover (some h) => h.toJson
  | .outline symbols => .array (symbols.map RecordSymbol.toJson)
  | .links ls => .array (ls.map Link.toJson)
  | .completions items =>
    .ofFields [("isIncomplete", .bool false), ("items", .array (items.map CompletionItem.toJson))]

namespace Message

/-- The document that a message is about. -/
def uri : Message → Text
  | .tagsChanged uri _ _ | .diagnostics uri _ _ => uri

/-- The method of a message. -/
def method : Message → Text
  | .tagsChanged _ _ _ => utf8 "robotsls/tagsChanged"
  | .diagnostics _ _ _ => utf8 "textDocument/publishDiagnostics"

/-- The parameters of a message. -/
def params : Message → Json
  | .tagsChanged uri version range =>
    .ofFields [("uri", .string uri), ("version", .ofInt version), ("range", range.toJson)]
  | .diagnostics uri version items =>
    .ofFields ([("uri", .string uri)] ++
      Json.optional "version" (if version = 0 then none else some (.ofInt version)) ++
      [("diagnostics", .array (items.map Marker.toJson))])

end Message

end RobotsTxt
