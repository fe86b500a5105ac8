import RobotsTxt.ContentChange
import RobotsTxt.Editor.SemanticTokens
import RobotsTxt.LogLevel
import RobotsTxt.Settings.Decode
import RobotsTxt.Uri

/-!
# Refused requests

Why a request is refused, with the code and the words in which a client hears of it.

* `Fault`: the causes.
* `Fault.code`, `Fault.message`: what a client hears.
-/

namespace RobotsTxt

/-- Why a request is refused. -/
inductive Fault where
  /-- The parameters are not what the method takes. -/
  | unreadable
  /-- The protocol knows the method and the server does not offer it. -/
  | unsupported
  | unknownMethod (name : Text)
  /-- The server has been shut down. -/
  | shutDown
  | notOpen (uri : Text)
  | position (fault : PositionFault)
  /-- A range of which tokens are asked has no span. -/
  | range (fault : RangeFault)
  | content (fault : ContentFault)
  | span (fault : SpanFault)
  | tokens (fault : TokenFault)
  | settings (fault : SettingsError)
  | level (fault : UnknownLevel)
  | load (fault : LoadFault)
  /-- The folder of a workspace is no folder of files. The server cannot go on with the request. -/
  | workspace (fault : Uri.PathFault)

/-- The wording for a range that ends before it starts. -/
def Range.reversedMessage (r : Range) : Text :=
  utf8 "range end " ++ r.stop.render ++ utf8 " precedes start " ++ r.start.render

namespace Fault

/-- The code for parameters that do not fit. -/
def invalidParams : Int := -32602

/-- The code that a client hears; zero stands for no code. -/
def code : Fault → Int
  | .unreadable => -32700
  | .shutDown => -32600
  | .unsupported | .unknownMethod _ => -32601
  | .notOpen _ | .position _ | .range (.reversed _) | .content (.range _) => invalidParams
  | .content .noChanges => -32603
  | .range (.position _) | .span _ | .tokens _ => 0
  | .settings _ | .level _ | .load _ | .workspace _ => 0

/-- The wording of parameters that do not fit. -/
def invalid (detail : Text) : Text := utf8 "JSON RPC invalid params: " ++ detail

/-- The words that a client hears. -/
def message : Fault → Text
  | .unreadable => utf8 "JSON RPC parse error"
  | .unsupported => utf8 "JSON RPC method not found"
  | .unknownMethod name => utf8 "JSON RPC method not found: " ++ name.quote
  | .shutDown => utf8 "JSON RPC invalid request: server is shut down"
  | .notOpen uri => invalid (utf8 "document " ++ uri ++ utf8 " is not open")
  | .position fault => invalid fault.message
  | .range (.position fault) => fault.message
  | .range (.reversed r) => invalid r.reversedMessage
  | .content .noChanges => utf8 "JSON RPC internal error: no content changes provided"
  | .content (.range (.position fault)) => invalid fault.message
  | .content (.range (.reversed r)) => invalid r.reversedMessage
  | .span fault => fault.message
  | .tokens fault => fault.message
  | .settings fault => fault.message
  | .level fault => fault.message
  | .load fault =>
    if fault.isBreakdown then fault.message else utf8 "invalid settings: " ++ fault.message
  | .workspace fault => fault.message

/-- Whether the server cannot go on with the request at all. -/
def isBreakdown : Fault → Bool
  | .workspace _ => true
  | .load fault => fault.isBreakdown
  | _ => false

end Fault

end RobotsTxt
