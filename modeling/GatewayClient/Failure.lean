/-
The ways in which a request can fail.  Each has one code and one text on the wire; codes that no
failure owns stand for the general one, and code 0 for none at all.
-/
import GatewayClient.Json.Value

namespace GatewayClient

/-- Why a request was not answered with a result. -/
inductive Failure where
  | general
  | timeout
  | notConnected
  | alreadyConnected
  | invalidRequest
  | methodNotFound
  | invalidParams
  | capabilityNotAvailable
  | capabilityNotSupported
  | capabilityGet
  | capabilityNotPermitted
deriving DecidableEq, Repr

namespace Failure

/-- The code of a failure on the wire. -/
def code : Failure → Int
  | general => 1
  | timeout => 2
  | notConnected => 3
  | alreadyConnected => 4
  | invalidRequest => -32600
  | methodNotFound => -32601
  | invalidParams => -32602
  | capabilityNotAvailable => -50300
  | capabilityNotSupported => -50100
  | capabilityGet => -50200
  | capabilityNotPermitted => -40300

/-- The failure that a code on the wire stands for; 0 stands for none. -/
def ofCode? (code : Int) : Option Failure :=
  if code = 0 then none
  else if code = 2 then some timeout
  else if code = 3 then some notConnected
  else if code = 4 then some alreadyConnected
  else if code = -32600 then some invalidRequest
  else if code = -32601 then some methodNotFound
  else if code = -32602 then some invalidParams
  else if code = -50300 then some capabilityNotAvailable
  else if code = -50100 then some capabilityNotSupported
  else if code = -50200 then some capabilityGet
  else if code = -40300 then some capabilityNotPermitted
  else some general

/-- The text of a failure on the wire. -/
def message : Failure → String
  | general => "general error"
  | timeout => "request timed out"
  | notConnected => "not connected to gateway"
  | alreadyConnected => "already connected to gateway"
  | invalidRequest => "invalid request"
  | methodNotFound => "method not found"
  | invalidParams => "invalid params"
  | capabilityNotAvailable => "capability not available"
  | capabilityNotSupported => "capability not supported"
  | capabilityGet => "capability could not be retrieved"
  | capabilityNotPermitted => "capability not permitted"

/-- A failure is read back from its own code. -/
theorem ofCode?_code (f : Failure) : ofCode? f.code = some f := by
  cases f <;> decide

end Failure

/-- What a request comes to: a value, or why there is none. -/
abbrev Outcome := Except Failure Json

instance decidableEqExcept {ε α : Type} [DecidableEq ε] [DecidableEq α] :
    DecidableEq (Except ε α)
  | .ok a, .ok b => decidable_of_iff (a = b) (by simp)
  | .error a, .error b => decidable_of_iff (a = b) (by simp)
  | .ok _, .error _ => isFalse (by simp)
  | .error _, .ok _ => isFalse (by simp)

/-- Why the channel to the gateway did not carry a frame. -/
inductive LinkFailure where
  | closed
  | sendFailed (reason : String)
  | receiveFailed (reason : String)
deriving DecidableEq, Repr

namespace LinkFailure

def message : LinkFailure → String
  | closed => "channel closed"
  | sendFailed reason => "send failed: " ++ reason
  | receiveFailed reason => "receive failed: " ++ reason

/-- To a caller every trouble with the channel is the same. -/
def toFailure (_ : LinkFailure) : Failure :=
  .notConnected

end LinkFailure

end GatewayClient
