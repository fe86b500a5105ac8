import RobotsTxt.Highlight
import RobotsTxt.Server.Reply

/-!
# Questions about a document

* `Query`: a question about the current version of a document.
* `Query.answer`: the answer, which depends on the text, its tree and the analyzers only.
* `Server.ask`: puts a question to the document with a URI.
* `Server.pull`: the diagnostics of a document, unless the client has them already.
-/

namespace RobotsTxt

/-- A question about a version of a document, in terms of offsets. -/
inductive Query where
  | tokens (span : Span)
  | highlights (caret : Nat)
  | diagnostics
  | formatting
  | hover (caret : Nat)
  | outline
  | links
  | completions (caret : Nat)
  deriving Repr, DecidableEq

/-- The answer to a question about a text and its tree. -/
def Query.answer (dispatcher : Dispatcher) (resultId text : Text) (t : Tree) :
    Query → Except Fault Reply
  | .tokens span =>
    ((encodeTokens text (t.root.classify span)).mapError .tokens).map (.tokens resultId)
  | .highlights caret =>
    (((t.root.highlightsAt caret).mapM text.rangeOf).mapError .span).map .highlights
  | .diagnostics =>
    let found := dispatcher.analyze t.root ⟨0, text.length⟩
    ((markers text found).mapError .span).map (.report resultId)
  | .formatting => ((formattingEdits replacements t).mapError .span).map .edits
  | .hover caret => ((t.root.hoverAt text caret).mapError .span).map .hover
  | .outline => ((t.root.outline text).mapError .span).map .outline
  | .links => ((t.root.links text).mapError .span).map .links
  | .completions caret => ((t.root.completionsAt text caret).mapError .span).map .completions

/-- The question that is asked about a place in a text. -/
def Query.at (question : Nat → Query) (p : Position) (text : Text) : Except Fault Query :=
  ((text.offsetAt p).mapError .position).map question

/-- The question for the tokens of a range, or of the whole text. -/
def Query.tokensOf (range? : Option Range) (text : Text) : Except Fault Query :=
  match range? with
  | none => .ok (.tokens ⟨0, text.length⟩)
  | some range => ((text.spanOf range).mapError .range).map .tokens

namespace Server

variable (s : Server)

/-- Puts a question to the document with a URI, where the question may depend on its text. -/
def ask (uri : Text) (question : Text → Except Fault Query) : Except Fault Reply × Server :=
  match s.find? uri with
  | none => (.error (.notOpen uri), s)
  | some d =>
    match question d.text with
    | .error e => (.error e, s)
    | .ok q =>
      match d.tree with
      | (t, d) => (q.answer d.session.dispatcher (s.resultId d.version) d.text t, s.update d)

/-- The diagnostics of a document. A client that already has those of the current version under the
current configuration is only told so. -/
def pull (uri previous : Text) : Except Fault Reply × Server :=
  let known (d : OpenDocument) : Bool := !previous.isEmpty && previous == s.resultId d.version
  if (s.find? uri).any known then (.ok (.unchanged previous), s)
  else s.ask uri fun _ => .ok .diagnostics

end Server

end RobotsTxt
