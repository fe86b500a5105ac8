import RobotsTxt.Analyzer.Basic
import RobotsTxt.Number.Numeral
import RobotsTxt.Url

/-!
# The builtin analyzers

The checks that are made by default.

* `Analyzer.missingToken`: every required piece of a line is there.
* `Analyzer.unknownDirective`: the name of a line is known.
* `Analyzer.emptyUserAgent`: a user-agent line names an agent.
* `Analyzer.rulePath`: the path of a rule starts like a path.
* `Analyzer.sitemapUrl`: a sitemap is an absolute URL of the Web.
* `Analyzer.crawlDelay`: a crawl delay is a number of seconds.
* `Analyzer.recordStart`: no rule comes before the first user-agent line.
* `Analyzer.duplicateUserAgent`: no agent is named twice.
* `Analyzer.builtin`: all of them, in the order in which they are run.
-/

namespace RobotsTxt

namespace Analyzer

/-- What an analyzer reports that reads a token which is not there. -/
def absentToken : Text := utf8 "absent token"

/-- An analyzer of lines. It ignores the other nodes. -/
def ofLines (name : String) (kind : Kind) (look : Line → Outcome) : Analyzer where
  name := utf8 name
  kinds := [kind]
  look
    | .line l => look l
    | _ => .reported []

/-- An analyzer of whole documents. It ignores the other nodes. -/
def ofDocuments (name : String) (look : Document → Outcome) : Analyzer where
  name := utf8 name
  kinds := [.document]
  look
    | .document d => look d
    | _ => .reported []

/-! ## Lines -/

/-- What the absence of a token means. -/
def missingMessage : TokenKind → Text
  | .name => utf8 "expected a directive name"
  | .delimiter => utf8 "expected ':' after directive name"
  | .value => utf8 "expected a directive value"
  | kind => utf8 "missing " ++ kind.label.lower

/-- The diagnostic of a token that is missing. -/
def missingDiagnostic? (t : Token) : Option Diagnostic :=
  if t.missing then
    some { span := t.span, severity := .error, message := missingMessage t.kind }
  else none

/-- Reports every missing token. -/
def missingToken : Analyzer where
  name := utf8 "missing-token"
  kinds := [.line]
  look n := .reported (n.tokens.filterMap missingDiagnostic?)

/-- Reports a name that is not known. Without a delimiter the whole line reads as a name, so nothing
is said about it. -/
def unknownDirective : Analyzer :=
  ofLines "unknown-directive" .extension fun l =>
    match l.name?, l.delimiter? with
    | some name, some delimiter =>
      if name.missing || delimiter.missing || (Directive.lookup? name.value).isSome then
        .reported []
      else .reported [
        { span := name.span, severity := .warning
          message := utf8 "unknown directive " ++ name.value.quote }]
    | some name, none => if name.missing then .reported [] else .broken absentToken
    | none, _ => .broken absentToken

/-- Runs a check on a line whose delimiter is there. -/
def ifDelimited (l : Line) (check : List Diagnostic) : Outcome :=
  match l.delimiter? with
  | some delimiter => if delimiter.missing then .reported [] else .reported check
  | none => .broken absentToken

/-- Reports a user-agent line without an agent. -/
def emptyUserAgent : Analyzer :=
  ofLines "empty-user-agent" .userAgent fun l =>
    if !l.valueText.isEmpty then .reported []
    else ifDelimited l
      [{ span := l.span, severity := .error
         message := utf8 "User-agent requires a product token or '*'" }]

/-- Whether a path starts as a path of a rule should. -/
def startsLikePath (path : Text) : Bool := path.head?.all fun b => b == 0x2F || b == 0x2A

/-- Reports a rule whose path starts neither with a slash nor with a star. An empty path is how
"allow everything" is spelled. -/
def rulePath : Analyzer :=
  ofLines "rule-path" .rule fun l =>
    if startsLikePath l.valueText then .reported []
    else match l.value? with
      | some value => .reported [
        { span := value.span, severity := .warning
          message := utf8 "path " ++ l.valueText.quote ++ utf8 " should start with '/' or '*'" }]
      | none => .broken absentToken

/-- The span of a line's value; the whole line when it has none. -/
def valueSpan (l : Line) : Span := (l.value?.map Token.span).getD l.span

/-- Reports a sitemap that is not an absolute URL of the Web. -/
def sitemapUrl : Analyzer :=
  ofLines "sitemap-url" .sitemap fun l =>
    ifDelimited l <|
      if Url.isWebText l.valueText then []
      else [{ span := valueSpan l, severity := .error
              message := utf8 "sitemap " ++ l.valueText.quote ++
                utf8 " is not an absolute http(s) URL" }]

/-- Whether a text is a number of seconds to wait. -/
def isDelayText (t : Text) : Bool := (Numeral.read? t).any Numeral.isDelay

/-- Reports a crawl delay that is not a number of seconds. -/
def crawlDelay : Analyzer :=
  ofLines "crawl-delay" .crawlDelay fun l =>
    ifDelimited l <|
      if isDelayText l.valueText then []
      else [{ span := valueSpan l, severity := .error
              message := utf8 "crawl delay " ++ l.valueText.quote ++
                utf8 " must be a non-negative number of seconds" }]

/-! ## Documents -/

/-- Whether a line belongs to a group and so needs a user-agent line before it. -/
def needsAgent (l : Line) : Bool := l.kind == .rule || l.kind == .crawlDelay

/-- Whether a record names an agent. -/
def namesAgent (r : Record) : Bool := r.directives.any fun l => l.kind == .userAgent

/-- The records up to the first one that names an agent, that one included. -/
def upToAgent : List Record → List Record
  | [] => []
  | r :: rs => r :: if namesAgent r then [] else upToAgent rs

/-- The lines that need a user-agent line and start a record before there can be one. -/
def earlyLines (d : Document) : List Line :=
  ((upToAgent d.records).filterMap fun r => r.directives.head?).filter needsAgent

/-- The diagnostic of a line with a given name that comes too early. -/
def earlyDiagnostic (l : Line) (name : Token) : Diagnostic :=
  { span := l.span, severity := .error
    message := name.value ++ utf8 " must follow a User-agent line" }

/-- Reports rules that come before any user-agent line. Blank lines split records but do not end a
group, so a record that starts with a rule after an earlier group belongs to that group. -/
def recordStart : Analyzer :=
  ofDocuments "record-start" fun d =>
    match (earlyLines d).mapM fun l => l.name?.map (earlyDiagnostic l) with
    | some found => .reported found
    | none => .broken absentToken

/-- The lines that name an agent. -/
def agentLines (d : Document) : List Line :=
  d.lines.filter fun l => l.kind == .userAgent && !l.valueText.isEmpty

/-- The lines that name an agent which an earlier one has named, where `seen` are the agents so far.
-/
def repeatedAgents : (seen : List Text) → List Line → List Line
  | _, [] => []
  | seen, l :: ls =>
    let agent := l.valueText.lower
    if seen.contains agent then l :: repeatedAgents seen ls else repeatedAgents (agent :: seen) ls

/-- Reports agents that an earlier line has named, up to lower case. -/
def duplicateUserAgent : Analyzer :=
  ofDocuments "duplicate-user-agent" fun d =>
    .reported <| (repeatedAgents [] (agentLines d)).map fun l =>
      { span := valueSpan l, severity := .warning
        message := utf8 "user agent " ++ l.valueText.quote ++
          utf8 " is already matched by an earlier group" }

/-- The builtin analyzers, in the order in which they are run. -/
def builtin : List Analyzer :=
  [missingToken, unknownDirective, emptyUserAgent, rulePath, sitemapUrl, crawlDelay, recordStart,
    duplicateUserAgent]

end Analyzer

end RobotsTxt
