/-
What the client does with a frame that comes in.  A reply goes to the call that waits for it and a
notice to the event's listeners, at once; a call of the platform starts a job that answers it.
Nothing here waits.
-/
import GatewayClient.Client.Change
import GatewayClient.Frame.Inbound

namespace GatewayClient

/-- What became of a frame. -/
inductive Delivery where
  | response (matched : Bool)
  | event (listeners : Nat)
  | providerCall
  | malformed
deriving DecidableEq, Repr

/-- What a source of frames gives: a frame, or a failure; `closed` is the end. -/
abbrev Arrival := Except LinkFailure String

namespace Client

/-- A listener's errand: the listener last attached under the name `target` is to be detached. -/
def startErrand (c : Client) (event target : String) : Client :=
  match c.attached.get? target with
  | some id =>
    let (client, job) := c.start (.change (.unsubscribe event id) .fresh)
    { client with errands := client.errands.put job target }
  | none => c

/-- Runs a listener on a notice; whether it ran to its end.  One that cannot read the notice does so
without doing anything. -/
def runListener (c : Client) (event : String) (value : Json) (listener : Listener) :
    Client × Bool :=
  match listener.payload.normalize value with
  | none => (c, true)
  | some value =>
    let client := c.note listener.name value
    match listener.reaction with
    | .nothing => (client, true)
    | .breakDown => (client, false)
    | .detach target => (client.startErrand event target, true)
    | .enlist event name => ((client.start (.change (.subscribe event { name }) .fresh)).1, true)

/-- Runs listeners one after the other; how many ran to their end. -/
def runListeners (c : Client) (event : String) (value : Json) :
    List (UInt64 × Listener) → Client × Nat
  | [] => (c, 0)
  | (_, listener) :: rest =>
    let (client, completed) := c.runListener event value listener
    let (client, count) := runListeners client event value rest
    (client, if completed then count + 1 else count)

/-- Hands a notice to the listeners that its event has now; how many ran to their end. -/
def dispatch (c : Client) (event : String) (value : Json) : Client × Nat :=
  c.runListeners event value (c.listenersOf event)

/-- Gives a reply to the call that waits for it; whether there was one. -/
def deliverResponse (c : Client) (frame : Response) : Client × Bool :=
  match frame.callId? with
  | some id => c.resolve id frame.outcome
  | none => (c, false)

/-- Starts the answer to a call of the platform, by the handler that is provided now. -/
def startAnswer (c : Client) (call : ProviderCall) : Client :=
  (c.start (.answer call.id call.method
    (.fresh (c.providers.get? call.method) call.params))).1

/-- Takes in a frame.  Where no job can be started, `answering` is false and a call of the platform
comes to nothing. -/
def deliverFrame (c : Client) (answering : Bool) : Inbound → Client × Delivery
  | .response frame =>
    let (client, matched) := c.deliverResponse frame
    (client, .response matched)
  | .event notice =>
    let (client, count) := c.dispatch notice.event notice.value
    (client, .event count)
  | .providerCall call => (if answering then c.startAnswer call else c, .providerCall)

/-- Takes in the text of a frame; one that is no frame changes nothing. -/
def deliver (c : Client) (text : String) (answering : Bool) : Client × Delivery :=
  match Inbound.parse text with
  | .ok frame => c.deliverFrame answering frame
  | .error _ => (c, .malformed)

/-- Takes in what a source gives, up to its end; how many were asked for, the end included.  A
source that gives no more is at its end. -/
def takeIn (c : Client) : List Arrival → Client × Nat
  | [] => (c, 1)
  | .error .closed :: _ => (c, 1)
  | .ok text :: rest =>
    let (client, count) := takeIn (c.deliver text true).1 rest
    (client, count + 1)
  | .error (.sendFailed _) :: rest | .error (.receiveFailed _) :: rest =>
    let (client, count) := takeIn c rest
    (client, count + 1)

end Client

end GatewayClient
