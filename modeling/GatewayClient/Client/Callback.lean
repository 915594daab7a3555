/-
What an application gives the client to call: listeners for events and handlers for the platform's
calls.  Both have names, under which their invocations are noted.
-/
import GatewayClient.Shape.Payload
import GatewayClient.Failure

namespace GatewayClient

/-- What a listener does once it has noted its notice. -/
inductive Reaction where
  | nothing
  | breakDown
  /-- Has the listener detached that was last attached under a name. -/
  | detach (target : String)
  /-- Has a listener of a name attached to an event. -/
  | enlist (event name : String)
deriving DecidableEq, Repr

/-- A listener.  It is only run on notices that its payload can be read from. -/
structure Listener where
  name : String
  payload : Payload := .anything
  reaction : Reaction := .nothing
deriving DecidableEq, Repr

/-- How a handler ends. -/
inductive Ending where
  | breakDown
  | echo
  | outcome (outcome : Outcome)
deriving DecidableEq

/-- What a handler does: it may wait for a release of a name, and then it ends. -/
structure Script where
  wait : Option String := none
  ending : Ending
deriving DecidableEq

/-- A handler for calls of the platform.  A scripted one reads a request and answers with a reply; a
mute one takes any call, and has a reply that cannot be written. -/
inductive Handler where
  | scripted (name : String) (label : Option String) (request reply : Payload) (script : Script)
  | mute
deriving DecidableEq

/-- What an invocation says about a request that has been read: one for an entry by keyboard is
known by its message, and any other is said in full. -/
def Payload.summary (p : Payload) (request : Json) : Json :=
  match p with
  | .keyboardRequest => (request.get? "message").getD .null
  | _ => request

/-- An invocation of a handler: the method and what it says about the request. -/
structure Invocation where
  method : String
  request : Json
deriving DecidableEq

namespace Invocation

def toJson (i : Invocation) : Json :=
  .ofMembers [("method", .string i.method), ("params", i.request)]

end Invocation

namespace Handler

/-- The invocation of a scripted handler by a call of `method`, if its params can be read. -/
def invocation? (label : Option String) (request : Payload) (method : String) (params : Json) :
    Option Invocation :=
  (request.normalize params).map fun value => ⟨label.getD method, request.summary value⟩

/-- What a script that has not broken down comes to.  A value that is no reply of the handler's type
is no answer to the request. -/
def conclude (reply : Payload) (invocation : Invocation) : Ending → Outcome
  | .breakDown => .error .general
  | .echo => asReply invocation.toJson
  | .outcome (.ok value) => asReply value
  | .outcome (.error f) => .error f
where
  /-- The value as a reply. -/
  asReply (value : Json) : Outcome :=
    match reply.normalize value with
    | some value => .ok value
    | none => .error .invalidRequest

end Handler

end GatewayClient
