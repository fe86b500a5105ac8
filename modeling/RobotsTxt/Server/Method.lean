import RobotsTxt.Server.Shape

/-!
# Methods of the protocol

The methods that a client may call, with the shapes of their parameters.

* `Method.shapes`: all methods, those included that the server does not offer.
* `Method.shape?`: the shape of a method's parameters.
-/

namespace RobotsTxt.Method

open Shape

/-! ## Documents and places -/

/-- The address of a document in an object. -/
def identifier : Shape := record [("uri", uri)]

/-- A document with its version. -/
def versioned : Shape := record [("uri", uri), ("version", int)]

/-- A document with its content. -/
def documentItem : Shape :=
  record [("uri", uri), ("languageId", text), ("version", int), ("text", text)]

/-- A line and a character. -/
def position : Shape := record [("line", count), ("character", count)]

/-- Two positions. -/
def range : Shape := record [("start", position), ("end", position)]

/-- A range of a document. -/
def location : Shape := record [("uri", uri), ("range", range)]

/-- A folder of a workspace, whose address is not looked into. -/
def folder : Shape := record [("uri", text), ("name", text)]

/-! ## Parameters that many methods take -/

/-- The fields by which the progress of a request is followed. -/
def progress : List (String × Shape) := [("workDoneToken", any), ("partialResultToken", any)]

/-- Parameters with given fields besides those of progress. -/
def params (fields : List (String × Shape)) : Shape := record (fields ++ progress)

/-- Parameters about a document. -/
def onDocument (fields : List (String × Shape)) : Shape :=
  params (("textDocument", identifier) :: fields)

/-- Parameters about a place in a document. -/
def onPlace (fields : List (String × Shape)) : Shape :=
  onDocument (("position", position) :: fields)

/-! ## Changes, commands and diagnostics -/

/-- A replacement of a range. -/
def textEdit : Shape := record [("range", range), ("newText", text)]

/-- A text that may be inserted at one range or put in the place of another. -/
def insertion : Shape := record [("newText", text), ("insert", range), ("replace", range)]

/-- A change of a document's content. -/
def contentChange : Shape := record [("range", range), ("rangeLength", count), ("text", text)]

/-- A command that a client may call. -/
def command : Shape := record
  [("title", text), ("tooltip", text), ("command", text), ("arguments", list raw)]

/-- A text, plain or marked up. -/
def documentation : Shape := oneOf [record [("kind", text), ("value", text)], text]

/-- Something that is reported about a range. -/
def diagnostic : Shape := record
  [("range", range), ("severity", count), ("code", any),
    ("codeDescription", record [("href", text)]), ("source", text), ("message", text),
    ("tags", list count),
    ("relatedInformation", list (record [("location", location), ("message", text)])),
    ("data", raw)]

/-- The edits of one document. -/
def documentEdits : Shape := record [("textDocument", versioned), ("edits", list textEdit)]

/-- A file that gets another name. -/
def fileMove : Shape := record
  [("kind", text), ("annotationId", text), ("oldUri", uri), ("newUri", uri),
    ("options", record [("overwrite", truth), ("ignoreIfExists", truth)])]

/-- Edits of a whole workspace. -/
def workspaceEdit : Shape := record
  [("changes", uriTable (list textEdit)),
    ("documentChanges", list (guarded "textDocument" documentEdits fileMove)),
    ("changeAnnotations",
      table (record [("label", text), ("needsConfirmation", truth), ("description", text)]))]

/-- An action that a client may take. -/
def codeAction : Shape := record
  [("title", text), ("kind", text), ("diagnostics", list diagnostic), ("isPreferred", truth),
    ("disabled", record [("reason", text)]), ("edit", workspaceEdit), ("command", command),
    ("data", raw)]

/-- How a document is formatted. -/
def formattingOptions : Shape := record
  [("tabSize", count), ("insertSpaces", truth), ("trimTrailingWhitespace", truth),
    ("insertFinalNewline", truth), ("trimFinalNewlines", truth)]

/-! ## Suggestions and hints -/

/-- A suggested completion. -/
def completionItem : Shape := record
  [("label", text), ("labelDetails", record [("detail", text), ("description", text)]),
    ("kind", count), ("tags", list count), ("detail", text), ("documentation", documentation),
    ("deprecated", truth), ("preselect", truth), ("sortText", text), ("filterText", text),
    ("insertText", text), ("insertTextFormat", count), ("insertTextMode", count),
    ("textEdit", oneOf [insertion, textEdit]), ("textEditText", text),
    ("additionalTextEdits", list textEdit),
    ("commitCharacters", list text), ("command", command), ("data", any)]

/-- A hint within a line. -/
def inlayHint : Shape := record
  [("position", position),
    ("label", list (record
      [("value", text), ("tooltip", documentation), ("location", location),
        ("command", command)])),
    ("kind", count), ("textEdits", list textEdit), ("tooltip", documentation),
    ("paddingLeft", truth), ("paddingRight", truth), ("data", any)]

/-- The signatures that are shown for a call. -/
def signatures : Shape := record
  [("signatures", list (record
      [("label", text), ("documentation", documentation),
        ("parameters", list (record [("label", text), ("documentation", text)])),
        ("activeParameter", count)])),
    ("activeSignature", count), ("activeParameter", count)]

/-! ## Symbols and notebooks -/

/-- A node in a hierarchy of calls or types. -/
def hierarchyItem : Shape := record
  [("name", text), ("kind", count), ("tags", list count), ("detail", text), ("uri", uri),
    ("range", range), ("selectionRange", range), ("data", any)]

/-- A symbol of a workspace. -/
def symbol : Shape := record
  [("name", text), ("kind", count), ("tags", list count), ("containerName", text),
    ("location", oneOf [location, identifier]), ("data", any)]

/-- Data of a client's own. -/
def metadata : Shape := table any

/-- A cell of a notebook. -/
def cell : Shape := record
  [("kind", count), ("document", uri), ("metadata", metadata),
    ("executionSummary", record [("executionOrder", count), ("success", truth)])]

/-- The address of a notebook, which is not looked into. -/
def notebook : Shape := record [("uri", text)]

/-- A notebook with its cells. -/
def notebookItem : Shape := record
  [("uri", text), ("notebookType", text), ("version", int), ("metadata", metadata),
    ("cells", list cell)]

/-- A change of a notebook. -/
def notebookChange : Shape := record
  [("metadata", metadata),
    ("cells", record
      [("structure", record
          [("array", record
              [("start", count), ("deleteCount", count), ("cells", list cell)]),
            ("didOpen", list documentItem), ("didClose", list identifier)]),
        ("data", list cell),
        ("textContent", list (record
          [("document", versioned), ("changes", list contentChange)]))])]

/-! ## What a client can do -/

/-- A client's abilities that are either there or not. -/
def flags (names : List String) : List (String × Shape) := names.map fun n => (n, truth)

/-- An ability with nothing but flags. -/
def flagged (names : List String) : Shape := record (flags names)

/-- An ability that may be registered later. -/
def dynamic : Shape := flagged ["dynamicRegistration"]

/-- A set of numbers or of texts. -/
def valueSet (item : Shape) : Shape := record [("valueSet", list item)]

/-- The properties that may be left for later. -/
def resolvable : Shape := record [("properties", list text)]

/-- What a client can do with a workspace. -/
def workspaceAbilities : Shape := record
  (flags ["applyEdit", "workspaceFolders", "configuration"] ++
    [("workspaceEdit", record
        [("documentChanges", truth), ("resourceOperations", list text), ("failureHandling", text),
          ("normalizesLineEndings", truth),
          ("changeAnnotationSupport", flagged ["groupsOnLabel"])]),
      ("didChangeConfiguration", dynamic),
      ("didChangeWatchedFiles", flagged ["dynamicRegistration", "relativePatternSupport"]),
      ("symbol", record
        [("dynamicRegistration", truth), ("symbolKind", valueSet count),
          ("tagSupport", valueSet count), ("resolveSupport", resolvable)]),
      ("executeCommand", dynamic),
      ("fileOperations", flagged
        ["dynamicRegistration", "didCreate", "willCreate", "didRename", "willRename", "didDelete",
          "willDelete"])] ++
    ["semanticTokens", "codeLens", "inlineValue", "inlayHint", "diagnostics", "foldingRange"].map
      fun n => (n, flagged ["refreshSupport"]))

/-- How a client completes. -/
def completionAbilities : Shape := record
  [("dynamicRegistration", truth),
    ("completionItem", record
      (flags ["snippetSupport", "commitCharactersSupport", "deprecatedSupport", "preselectSupport",
          "insertReplaceSupport", "labelDetailsSupport"] ++
        [("documentationFormat", list text), ("tagSupport", valueSet count),
          ("resolveSupport", resolvable), ("insertTextModeSupport", valueSet count)])),
    ("completionItemKind", valueSet count), ("insertTextMode", count), ("contextSupport", truth),
    ("completionList", record [("itemDefaults", list text)])]

/-- How a client colours tokens. -/
def tokenAbilities : Shape := record
  (flags ["dynamicRegistration", "overlappingTokenSupport", "multilineTokenSupport",
      "serverCancelSupport", "augmentsSyntaxTokens"] ++
    [("requests", record
        [("range", oneOf [truth, record []]), ("full", oneOf [truth, flagged ["delta"]])]),
      ("tokenTypes", list text), ("tokenModifiers", list text), ("formats", list text)])

/-- How a client takes actions. -/
def actionAbilities : Shape := record
  (flags ["dynamicRegistration", "isPreferredSupport", "disabledSupport", "dataSupport",
      "honorsChangeAnnotations", "documentationSupport"] ++
    [("codeActionLiteralSupport", record [("codeActionKind", valueSet text)]),
      ("resolveSupport", resolvable)])

/-- How a client shows signatures. -/
def signatureAbilities : Shape := record
  [("dynamicRegistration", truth), ("contextSupport", truth),
    ("signatureInformation", record
      [("documentationFormat", list text), ("activeParameterSupport", truth),
        ("noActiveParameterSupport", truth),
        ("parameterInformation", flagged ["labelOffsetSupport"])])]

/-- How a client folds. -/
def foldingAbilities : Shape := record
  [("dynamicRegistration", truth), ("rangeLimit", count), ("lineFoldingOnly", truth),
    ("foldingRangeKind", valueSet text), ("foldingRange", flagged ["collapsedText"])]

/-- What a client can do with a document. -/
def documentAbilities : Shape := record
  (["references", "documentHighlight", "codeLens", "colorProvider", "formatting",
      "onTypeFormatting", "selectionRange", "callHierarchy", "linkedEditingRange", "moniker",
      "typeHierarchy", "inlineValue", "inlineCompletion"].map (fun n => (n, dynamic)) ++
    ["declaration", "definition", "typeDefinition", "implementation"].map
      (fun n => (n, flagged ["dynamicRegistration", "linkSupport"])) ++
    [("synchronization", flagged
        ["dynamicRegistration", "willSave", "willSaveWaitUntil", "didSave"]),
      ("completion", completionAbilities),
      ("hover", record [("dynamicRegistration", truth), ("contentFormat", list text)]),
      ("signatureHelp", signatureAbilities),
      ("documentSymbol", record
        (flags ["dynamicRegistration", "hierarchicalDocumentSymbolSupport", "labelSupport"] ++
          [("symbolKind", valueSet count), ("tagSupport", valueSet count)])),
      ("codeAction", actionAbilities),
      ("documentLink", flagged ["dynamicRegistration", "tooltipSupport"]),
      ("rangeFormatting", flagged ["dynamicRegistration", "rangesSupport"]),
      ("rename", record
        (flags ["dynamicRegistration", "prepareSupport", "honorsChangeAnnotations"] ++
          [("prepareSupportDefaultBehavior", count)])),
      ("foldingRange", foldingAbilities),
      ("publishDiagnostics", record
        (flags ["relatedInformation", "versionSupport", "codeDescriptionSupport", "dataSupport"] ++
          [("tagSupport", valueSet count)])),
      ("semanticTokens", tokenAbilities),
      ("inlayHint", record [("dynamicRegistration", truth), ("resolveSupport", resolvable)]),
      ("diagnostic", flagged ["dynamicRegistration", "relatedDocumentSupport"])])

/-- What a client can do. -/
def abilities : Shape := record
  [("workspace", workspaceAbilities), ("textDocument", documentAbilities),
    ("notebookDocument", record
      [("synchronization", flagged ["dynamicRegistration", "executionSummarySupport"])]),
    ("window", record
      [("workDoneProgress", truth),
        ("showMessage", record
          [("messageActionItem", flagged ["additionalPropertiesSupport"])]),
        ("showDocument", flagged ["support"])]),
    ("general", record
      [("staleRequestSupport", record
          [("cancel", truth), ("retryOnContentModified", list text)]),
        ("regularExpressions", record [("engine", text), ("version", text)]),
        ("markdown", record
          [("parser", text), ("version", text), ("allowedTags", list text)]),
        ("positionEncodings", list text)]),
    ("experimental", any)]

/-! ## The methods -/

/-- The methods about a place in a document that take nothing else. -/
def placeMethods : List String :=
  ["textDocument/declaration", "textDocument/definition", "textDocument/documentHighlight",
    "textDocument/hover", "textDocument/implementation", "textDocument/linkedEditingRange",
    "textDocument/moniker", "textDocument/prepareCallHierarchy", "textDocument/prepareRename",
    "textDocument/prepareTypeHierarchy", "textDocument/typeDefinition"]

/-- The methods about a document that take nothing else. -/
def documentMethods : List String :=
  ["textDocument/codeLens", "textDocument/didClose", "textDocument/documentColor",
    "textDocument/documentLink", "textDocument/documentSymbol", "textDocument/foldingRange",
    "textDocument/semanticTokens/full"]

/-- The other methods about a document. -/
def otherDocumentMethods : List (String × Shape) :=
  [("textDocument/codeAction", onDocument
      [("range", range), ("context", record
        [("diagnostics", list diagnostic), ("only", list text), ("triggerKind", count)])]),
    ("textDocument/colorPresentation", onDocument
      [("range", range), ("color", record
        [("red", double), ("green", double), ("blue", double), ("alpha", double)])]),
    ("textDocument/completion", onPlace
      [("context", record [("triggerKind", count), ("triggerCharacter", text)])]),
    ("textDocument/diagnostic", onDocument [("identifier", text), ("previousResultId", text)]),
    ("textDocument/didChange", record
      [("textDocument", versioned), ("contentChanges", list contentChange)]),
    ("textDocument/didOpen", record [("textDocument", documentItem)]),
    ("textDocument/didSave", record [("textDocument", identifier), ("text", text)]),
    ("textDocument/formatting", onDocument [("options", formattingOptions)]),
    ("textDocument/inlayHint", onDocument [("range", range)]),
    ("textDocument/inlineCompletion", onPlace
      [("context", record
        [("triggerKind", count),
          ("selectedCompletionInfo", record [("range", range), ("text", text)])])]),
    ("textDocument/inlineValue", onDocument
      [("range", range),
        ("context", record [("frameId", int), ("stoppedLocation", range)])]),
    ("textDocument/onTypeFormatting", record
      [("textDocument", identifier), ("position", position), ("ch", text),
        ("options", formattingOptions)]),
    ("textDocument/rangeFormatting", onDocument
      [("range", range), ("options", formattingOptions)]),
    ("textDocument/rangesFormatting", onDocument
      [("ranges", list range), ("options", formattingOptions)]),
    ("textDocument/references", onPlace
      [("context", record [("includeDeclaration", truth)])]),
    ("textDocument/rename", onPlace [("newName", text)]),
    ("textDocument/selectionRange", onDocument [("positions", list position)]),
    ("textDocument/semanticTokens/full/delta", onDocument [("previousResultId", text)]),
    ("textDocument/semanticTokens/range", onDocument [("range", range)]),
    ("textDocument/signatureHelp", onPlace
      [("context", record
        [("triggerKind", count), ("triggerCharacter", text), ("isRetrigger", truth),
          ("activeSignatureHelp", signatures)])]),
    ("textDocument/willSave", record [("textDocument", identifier), ("reason", count)]),
    ("textDocument/willSaveWaitUntil", record [("textDocument", identifier), ("reason", count)])]

/-- The methods about a whole workspace. -/
def workspaceMethods : List (String × Shape) :=
  let made := record [("files", list (record [("uri", text)]))]
  let renamed := record [("files", list (record [("oldUri", text), ("newUri", text)]))]
  [("workspace/diagnostic", params
      [("identifier", text),
        ("previousResultIds", list (record [("uri", uri), ("value", text)]))]),
    ("workspace/didChangeConfiguration", record [("settings", any)]),
    ("workspace/didChangeWatchedFiles", record
      [("changes", list (record [("uri", uri), ("type", count)]))]),
    ("workspace/didChangeWorkspaceFolders", record
      [("event", record [("added", list folder), ("removed", list folder)])]),
    ("workspace/didCreateFiles", made), ("workspace/didDeleteFiles", made),
    ("workspace/didRenameFiles", renamed),
    ("workspace/executeCommand", record
      [("command", text), ("arguments", list raw), ("workDoneToken", any)]),
    ("workspace/symbol", params [("query", text)]),
    ("workspace/willCreateFiles", made), ("workspace/willDeleteFiles", made),
    ("workspace/willRenameFiles", renamed)]

/-- The methods about items that the server has sent, about notebooks, and about the server itself.
-/
def otherMethods : List (String × Shape) :=
  [("$/progress", record [("token", any), ("value", any)]),
    ("$/setTrace", record [("value", text)]),
    ("callHierarchy/incomingCalls", params [("item", hierarchyItem)]),
    ("callHierarchy/outgoingCalls", params [("item", hierarchyItem)]),
    ("codeAction/resolve", codeAction),
    ("codeLens/resolve", record [("range", range), ("command", command), ("data", any)]),
    ("completionItem/resolve", completionItem),
    ("documentLink/resolve", record
      [("range", range), ("target", text), ("tooltip", text), ("data", any)]),
    ("initialize", record
      [("processId", int), ("clientInfo", record [("name", text), ("version", text)]),
        ("locale", text), ("rootPath", text), ("rootUri", uri), ("capabilities", abilities),
        ("initializationOptions", any), ("trace", text), ("workDoneToken", any),
        ("workspaceFolders", list folder)]),
    ("initialized", record []),
    ("inlayHint/resolve", inlayHint),
    ("notebookDocument/didChange", record
      [("notebookDocument", record [("uri", text), ("version", int)]),
        ("change", notebookChange)]),
    ("notebookDocument/didClose", record
      [("notebookDocument", notebook), ("cellTextDocuments", list identifier)]),
    ("notebookDocument/didOpen", record
      [("notebookDocument", notebookItem), ("cellTextDocuments", list documentItem)]),
    ("notebookDocument/didSave", record [("notebookDocument", notebook)]),
    ("typeHierarchy/subtypes", params [("item", hierarchyItem)]),
    ("typeHierarchy/supertypes", params [("item", hierarchyItem)]),
    ("window/workDoneProgress/cancel", record [("token", any)]),
    ("workspaceSymbol/resolve", symbol)]

/-- **The methods of the protocol with the shapes of their parameters.** -/
def shapes : List (String × Shape) :=
  placeMethods.map (fun m => (m, onPlace [])) ++
    documentMethods.map (fun m => (m, onDocument [])) ++ otherDocumentMethods ++
    workspaceMethods ++ otherMethods

/-- The shape of a method's parameters. -/
def shape? (method : Text) : Option Shape :=
  (shapes.find? fun m => utf8 m.1 == method).map Prod.snd

end RobotsTxt.Method
