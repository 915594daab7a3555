/-
The jobs that a client works on.  A job is advanced by small steps, between which the steps of other
jobs may come; its stage says how far it is.
-/
import GatewayClient.Client.Callback
import GatewayClient.Frame.Basic

namespace GatewayClient

/-- Jobs are numbered in the order in which they were started. -/
abbrev JobId := Nat

/-- A call of a method.  Without a timeout of its own it has the client's; params that cannot be
written are none. -/
structure Call where
  method : String
  params : Option Json
  timeout : Option Nat
deriving DecidableEq

/-- How far a call is: not begun; entered in the table, its frame not handed over; waiting for room
for the frame; waiting for the reply; past its deadline; over, its entry still to be looked after.
-/
inductive CallStage where
  | fresh
  | entered (id : UInt64) (slot : Nat)
  | crowded (id : UInt64) (slot : Nat)
  | waiting (id : UInt64) (slot : Nat) (deadline : Nat)
  | overdue (id : UInt64) (slot : Nat)
  | over (id : UInt64) (slot : Nat) (outcome : Outcome)
deriving DecidableEq

/-- What the caller makes of a result. -/
inductive Expected where
  | payload (p : Payload)
  | nothing
deriving DecidableEq, Repr

namespace Expected

/-- A result as the caller gets it; one that cannot be read is a failure. -/
def read : Expected → Json → Outcome
  | nothing, _ => .ok .null
  | payload p, value =>
    match p.normalize value with
    | some value => .ok value
    | none => .error .general

end Expected

/-- A change of what the client listens to or provides. -/
inductive Change where
  | subscribe (event : String) (listener : Listener)
  | unsubscribe (event : String) (id : UInt64)
  | provide (event : String) (handler : Handler)
  | revoke (event : String)
deriving DecidableEq

namespace Change

/-- The event that is changed. -/
def event : Change → String
  | subscribe event _ => event
  | unsubscribe event _ => event
  | provide event _ => event
  | revoke event => event

/-- What the platform is told with the request of a change. -/
def listens : Change → Bool
  | subscribe _ _ => true
  | unsubscribe _ _ => false
  | provide _ _ => true
  | revoke _ => false

end Change

/-- What a change has done. -/
inductive Changed where
  | attached (id : UInt64)
  | detached
  | registered
  | replaced
  | revoked (found : Bool)
deriving DecidableEq, Repr

namespace Changed

def toJson : Changed → Json
  | attached id => .string (toString id.toNat)
  | detached => .null
  | registered => .string "Registered"
  | replaced => .string "Replaced"
  | revoked found => .bool found

end Changed

/-- How far a change is: not begun; referring to its event's gate; at the gate; in its call to the
platform; letting go of the gate; taking a gate that nobody uses off the file. -/
inductive ChangeStage where
  | fresh
  | referring
  | atGate
  | calling (stage : CallStage)
  | releasing (result : Except Failure Changed)
  | pruning (result : Except Failure Changed)
deriving DecidableEq

/-- How far the answer to a call of the platform is: its handler, if any, not yet invoked; the
handler running; the reply ready; waiting for room for the reply. -/
inductive AnswerStage where
  | fresh (handler : Option Handler) (params : Json)
  | running
  | ready (outcome : Outcome)
  | crowded (outcome : Outcome)
deriving DecidableEq

/-- How far an invocation of a handler is. -/
inductive HandlingStage where
  | fresh (params : Json)
  | waiting (signal : String) (invocation : Invocation)
  | ending (invocation : Invocation)
deriving DecidableEq

/-- How far a sweeper is: waiting for its next sweep, or ending the calls that a sweep has found
expired, one by one. -/
inductive SweepStage where
  | resting
  | removing (startedAt : Nat) (ids : List UInt64)
deriving DecidableEq, Repr

/-- A job. -/
inductive Job where
  /-- Calls a method. -/
  | call (call : Call) (expected : Expected) (stage : CallStage)
  /-- Makes a change. -/
  | change (change : Change) (stage : ChangeStage)
  /-- Provides several handlers, all or none: those still to provide, the first of them at this
  stage, and the events that are newly provided. -/
  | provideAll (todo : List (String × Handler)) (made : List String) (stage : ChangeStage)
  /-- Takes back what was newly provided, since one was refused. -/
  | withdraw (reason : Failure) (todo : List String) (stage : ChangeStage)
  /-- Answers a call of the platform. -/
  | answer (id : Json) (method : String) (stage : AnswerStage)
  /-- Runs a handler for an answer. -/
  | handle (answer : JobId) (handler : Handler) (method : String) (stage : HandlingStage)
  /-- Sweeps expired calls, next at this time. -/
  | sweep (next : Nat) (stage : SweepStage)
  /-- Takes in what the platform sends through a channel. -/
  | receive
deriving DecidableEq

/-- What an application may start. -/
inductive Activity where
  | call (call : Call) (expected : Expected)
  | change (change : Change)
  | provideAll (handlers : List (String × Handler))
deriving DecidableEq

namespace Activity

/-- The job of an activity, at its beginning. -/
def toJob : Activity → Job
  | call c expected => .call c expected .fresh
  | change c => .change c .fresh
  | provideAll handlers => .provideAll handlers [] .fresh

end Activity

end GatewayClient
