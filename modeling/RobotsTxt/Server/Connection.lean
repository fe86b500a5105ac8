import RobotsTxt.Server.Handle

/-!
# Connections

A connection passes a client's messages to the server. A cancellation is answered by the connection
itself, `exit` ends it, and a server that has been shut down answers nothing else.

* `Connection.receive`: what comes of a message.
-/

namespace RobotsTxt

/-- The server at the end of a connection, and whether the connection has ended. -/
structure Connection where
  server : Server
  isClosed : Bool := false

/-- What comes of a message: the answer or why there is none, and what is sent at once. -/
structure Received where
  reply : Except Fault Reply
  sent : List Message := []
  connection : Connection

namespace Connection

variable (c : Connection)

/-- Whether parameters name the request that is to be cancelled. -/
def namesRequest (params : Option Json) : Bool :=
  match params.bind fun j => j.last? "id" with
  | some (.number _) | some (.string _) => true
  | _ => false

/-- The methods that a server answers after it has been shut down. -/
def isFinal (method : Text) : Bool := method == utf8 "exit" || method == utf8 "shutdown"

/-- **What comes of a message.** -/
def receive (disk : Disk) (method : Text) (params : Option Json) : Received :=
  if method == utf8 "$/cancelRequest" then
    { reply := if namesRequest params then .ok .nothing else .error .unreadable, connection := c }
  else if method == utf8 "exit" then
    { reply := .ok .nothing, connection := { c with isClosed := true } }
  else if c.server.isShutDown && !isFinal method then { reply := .error .shutDown, connection := c }
  else
    let h := c.server.receive disk method params
    { reply := h.reply, sent := h.sent, connection := { c with server := h.server } }

/-- Lets the server end its work in the background. -/
def settle : List Message × Connection :=
  match c.server.settle with
  | (sent, server) => (sent, { c with server })

/-- Lets the server end its work in the background, the smallest piece first. -/
def settleInTurn : List Message × Connection :=
  match c.server.settleInTurn with
  | (sent, server) => (sent, { c with server })

end Connection

end RobotsTxt
