import RobotsTxt.Server.Documents
import RobotsTxt.Server.Query
import RobotsTxt.Server.Request

/-!
# Answering requests

* `Server.handle`: what comes of a request.
* `Server.consulted`: the files that it may depend on.
* `Server.receive`: the same for a method and its parameters.
-/

namespace RobotsTxt

/-- What comes of a request: the answer or why there is none, the messages that are sent at once,
and the next state. -/
structure Handled where
  reply : Except Fault Reply
  sent : List Message := []
  server : Server

namespace Server

variable (s : Server)

/-- What comes of a question. -/
def answered (a : Except Fault Reply × Server) : Handled := { reply := a.1, server := a.2 }

/-- What comes of an operation that has an answer known beforehand, and sends messages. Whatever it
has done before it is refused stays done. -/
def carriedOut (reply : Reply) (op : Operation (List Message)) : Handled :=
  match s.perform op with
  | (.ok sent, server) => { reply := .ok reply, sent, server }
  | (.error e, server) => { reply := .error e, server }

/-- **What comes of a request.** -/
def handle (disk : Disk) : Request → Handled
  | .start root options =>
    s.carriedOut .capabilities do
      start disk root options
      return []
  | .initialized | .exit | .didSave _ => { reply := .ok .nothing, server := s }
  | .shutdown => { reply := .ok .nothing, server := s.shutDown }
  | .didOpen uri version text =>
    { reply := .ok .nothing, server := s.openDocument uri version text }
  | .didChange uri version changes =>
    s.carriedOut .nothing (changeDocument uri version changes)
  | .didClose uri =>
    match s.closeDocument uri with
    | (sent, server) => { reply := .ok .nothing, sent, server }
  | .didChangeConfiguration settings =>
    s.carriedOut .nothing do
      configure disk settings
      return []
  | .semanticTokens uri range? => answered (s.ask uri (Query.tokensOf range?))
  | .documentHighlight uri p => answered (s.ask uri (Query.at .highlights p))
  | .diagnostic uri previous => answered (s.pull uri previous)
  | .formatting uri => answered (s.ask uri fun _ => .ok .formatting)
  | .hover uri p => answered (s.ask uri (Query.at .hover p))
  | .documentSymbol uri => answered (s.ask uri fun _ => .ok .outline)
  | .documentLink uri => answered (s.ask uri fun _ => .ok .links)
  | .completion uri p => answered (s.ask uri (Query.at .completions p))

/-- The files that a request may make the server look at. -/
def consulted : Request → List Text
  | .start root options =>
    let candidates := match Uri.path root with
      | .ok folder => [workspaceConfig folder]
      | .error _ => []
    candidates ++ [s.rootConfigFile, ((Settings.ofJson options).toOption.getD {}).configFile]
  | .didChangeConfiguration settings =>
    [(s.complete ((Settings.ofJson settings).toOption.getD {})).configFile]
  | _ => []

/-- What comes of a method and its parameters. -/
def receive (disk : Disk) (method : Text) (params : Option Json) : Handled :=
  match Request.read method params with
  | .error e => { reply := .error e, server := s }
  | .ok r => s.handle disk r

end Server

end RobotsTxt
