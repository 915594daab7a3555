/-
The frames of the wire.  Requests go out; replies, event notices and provider calls come in, and
replies to provider calls go out as well.
-/
import GatewayClient.Frame.ErrorObject

namespace GatewayClient

/-- The version tag of every frame that has one. -/
def protocolVersion : String :=
  "2.0"

/-- A call of a method of the platform. -/
structure Request where
  version : String
  id : UInt64
  method : String
  params : Json
deriving DecidableEq

/-- The reply to a request.  `result` tells a null result from none. -/
structure Response where
  version : String
  id : Json
  result : Option Json
  error : Option ErrorObject
deriving DecidableEq

/-- The notice that an event has happened. -/
structure EventNotice where
  event : String
  value : Json
deriving DecidableEq

/-- A call that the platform makes of a provider; its id may be any value. -/
structure ProviderCall where
  id : Json
  method : String
  params : Json
deriving DecidableEq

namespace Request

def codec : Codec Request :=
  (Fields.cons (.required "jsonrpc" .string) <|
    .cons (.required "id" .uint64) <|
    .cons (.required "method" .string) <|
    .cons (.required "params" .value) .nil).record.convert
    (fun (version, id, method, params, ()) => ⟨version, id, method, params⟩)
    (fun r => (r.version, r.id, r.method, r.params, ()))

/-- Missing params go out as an empty object. -/
def paramsOf : Json → Json
  | .null => .object []
  | params => params

/-- The request of a call. -/
def make (id : UInt64) (method : String) (params : Json) : Request :=
  ⟨protocolVersion, id, method, paramsOf params⟩

def toJson (r : Request) : Json :=
  codec.encode r

/-- The params that ask for an event or a provider's calls to be sent, or no longer. -/
def listenParams (listen : Bool) : Json :=
  .object [("listen", .bool listen)]

end Request

namespace Response

def codec : Codec Response :=
  (Fields.cons (.required "jsonrpc" .string) <|
    .cons (.required "id" .value) <|
    .cons (.optional "result" .value) <|
    .cons (.optional "error" ErrorObject.codec) .nil).record.convert
    (fun (version, id, result, error, ()) => ⟨version, id, result, error⟩)
    (fun r => (r.version, r.id, r.result, r.error, ()))

def toJson (r : Response) : Json :=
  codec.encode r

/-- The reply that carries an outcome. -/
def ofOutcome (id : Json) : Outcome → Response
  | .ok value => ⟨protocolVersion, id, some value, none⟩
  | .error f => ⟨protocolVersion, id, none, some (.ofFailure f)⟩

/-- The call that a reply answers, if its id is one that calls have. -/
def callId? (r : Response) : Option UInt64 :=
  r.id.toWord?

/-- The outcome that a reply carries.  One with both a result and an error, or with neither, is
malformed and carries a general failure. -/
def outcome (r : Response) : Outcome :=
  match r.result, r.error with
  | some value, none => .ok value
  | none, some e => .error e.toFailure
  | _, _ => .error .general

end Response

namespace EventNotice

def codec : Codec EventNotice :=
  (Fields.cons (.required "event" .string) <|
    .cons (.defaulted "value" .value .null) .nil).record.convert
    (fun (event, value, ()) => ⟨event, value⟩)
    (fun n => (n.event, n.value, ()))

end EventNotice

namespace ProviderCall

def codec : Codec ProviderCall :=
  (Fields.cons (.required "id" .value) <|
    .cons (.required "method" .string) <|
    .cons (.defaulted "params" .value .null) .nil).record.convert
    (fun (id, method, params, ()) => ⟨id, method, params⟩)
    (fun c => (c.id, c.method, c.params, ()))

end ProviderCall

end GatewayClient
