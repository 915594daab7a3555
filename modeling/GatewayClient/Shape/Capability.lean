/-
Payload shapes of the capabilities that applications provide: keyboards, and challenges by a PIN or
an acknowledgement.
-/
import GatewayClient.Shape.Codec

namespace GatewayClient

/-- What a keyboard is asked to collect. -/
structure KeyboardRequest where
  message : String
deriving DecidableEq

def KeyboardRequest.codec : Codec KeyboardRequest :=
  (Fields.cons (.required "message" .string) .nil).record.convert
    (fun (message, ()) => ⟨message⟩)
    (fun r => (r.message, ()))

/-- Who wants a challenge to be passed. -/
structure ChallengeRequestor where
  id : String
  name : String
deriving DecidableEq

def ChallengeRequestor.codec : Codec ChallengeRequestor :=
  (Fields.cons (.required "id" .string) <|
    .cons (.required "name" .string) .nil).record.convert
    (fun (id, name, ()) => ⟨id, name⟩)
    (fun r => (r.id, r.name, ()))

inductive PinSpace where
  | purchase
  | content
deriving DecidableEq

def PinSpace.name : PinSpace → String
  | purchase => "purchase"
  | content => "content"

def PinSpace.codec : Codec PinSpace :=
  .choice [.purchase, .content] name

structure PinChallenge where
  requestor : ChallengeRequestor
  pinSpace : PinSpace
  capability : Option String
deriving DecidableEq

def PinChallenge.codec : Codec PinChallenge :=
  (Fields.cons (.required "requestor" ChallengeRequestor.codec) <|
    .cons (.required "pinSpace" PinSpace.codec) <|
    .cons (.optional "capability" .string) .nil).record.convert
    (fun (requestor, pinSpace, capability, ()) => ⟨requestor, pinSpace, capability⟩)
    (fun c => (c.requestor, c.pinSpace, c.capability, ()))

inductive ResultReason where
  | noPinRequired
  | noPinRequiredWindow
  | exceededPinFailures
  | correctPin
  | cancelled
deriving DecidableEq

def ResultReason.name : ResultReason → String
  | noPinRequired => "noPinRequired"
  | noPinRequiredWindow => "noPinRequiredWindow"
  | exceededPinFailures => "exceededPinFailures"
  | correctPin => "correctPin"
  | cancelled => "cancelled"

def ResultReason.codec : Codec ResultReason :=
  .choice [.noPinRequired, .noPinRequiredWindow, .exceededPinFailures, .correctPin, .cancelled] name

structure PinChallengeResult where
  granted : Option Bool
  reason : ResultReason
deriving DecidableEq

def PinChallengeResult.codec : Codec PinChallengeResult :=
  (Fields.cons (.nullable "granted" .bool) <|
    .cons (.required "reason" ResultReason.codec) .nil).record.convert
    (fun (granted, reason, ()) => ⟨granted, reason⟩)
    (fun r => (r.granted, r.reason, ()))

structure Challenge where
  capability : String
  requestor : ChallengeRequestor
deriving DecidableEq

def Challenge.codec : Codec Challenge :=
  (Fields.cons (.required "capability" .string) <|
    .cons (.required "requestor" ChallengeRequestor.codec) .nil).record.convert
    (fun (capability, requestor, ()) => ⟨capability, requestor⟩)
    (fun c => (c.capability, c.requestor, ()))

structure GrantResult where
  granted : Option Bool
deriving DecidableEq

def GrantResult.codec : Codec GrantResult :=
  (Fields.cons (.nullable "granted" .bool) .nil).record.convert
    (fun (granted, ()) => ⟨granted⟩)
    (fun r => (r.granted, ()))

end GatewayClient
