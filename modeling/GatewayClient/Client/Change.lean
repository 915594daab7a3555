/-
The steps of a change.  Changes of one event take turns at its gate; a change that the platform has
to know of calls it while the gate is held.  Listeners and handlers come in after the platform has
agreed, and go before it is told.
-/
import GatewayClient.Client.Call

namespace GatewayClient

namespace Client

/-- The gates that a change goes through: listeners and providers have gates of their own. -/
def gatesOf (c : Client) : Change → Gates
  | .subscribe _ _ | .unsubscribe _ _ => c.eventGates
  | .provide _ _ | .revoke _ => c.providerGates

def setGatesOf (c : Client) (change : Change) (gates : Gates) : Client :=
  match change with
  | .subscribe _ _ | .unsubscribe _ _ => { c with eventGates := gates }
  | .provide _ _ | .revoke _ => { c with providerGates := gates }

/-- The call that tells the platform of a change. -/
def changeCall (c : Client) (change : Change) : Call where
  method := change.event
  params := some (Request.listenParams change.listens)
  timeout := some c.settings.subscribeTimeout

/-- The listeners of an event. -/
def listenersOf (c : Client) (event : String) : List (UInt64 × Listener) :=
  (c.events.get? event).getD []

/-- A listener is attached, after those that the event has. -/
def attach (c : Client) (event : String) (listener : Listener) : Client × UInt64 :=
  ({ c with
      events := c.events.put event (c.listenersOf event ++ [(c.nextListener, listener)])
      nextListener := c.nextListener + 1 },
    c.nextListener)

/-- A listener is detached; none if the event has no such listener, and else whether it was the
last. -/
def detach? (c : Client) (event : String) (id : UInt64) : Option (Client × Bool) :=
  let listeners := c.listenersOf event
  let kept := listeners.filter fun l => l.1 != id
  if kept.length = listeners.length then none
  else if kept.isEmpty then some ({ c with events := c.events.erase event }, true)
  else some ({ c with events := c.events.put event kept }, false)

/-- What a change does once it is through its gate: it is either done already, or the platform has
to be called. -/
def enterChange (c : Client) : Change → Client × ChangeStage
  | .subscribe event listener =>
    if c.isSubscribed event then
      let (client, id) := c.attach event listener
      (client, .releasing (.ok (.attached id)))
    else (c, .calling .fresh)
  | .unsubscribe event id =>
    match c.detach? event id with
    | some (client, true) => (client, .calling .fresh)
    | some (client, false) => (client, .releasing (.ok .detached))
    | none => (c, .releasing (.ok .detached))
  | .provide event handler =>
    if c.isProvided event then
      ({ c with providers := c.providers.put event handler }, .releasing (.ok .replaced))
    else (c, .calling .fresh)
  | .revoke event =>
    if c.isProvided event then ({ c with providers := c.providers.erase event }, .calling .fresh)
    else (c, .releasing (.ok (.revoked false)))

/-- What a change does when the platform has agreed. -/
def settleChange (c : Client) : Change → Client × Changed
  | .subscribe event listener =>
    let (client, id) := c.attach event listener
    (client, .attached id)
  | .unsubscribe _ _ => (c, .detached)
  | .provide event handler => ({ c with providers := c.providers.put event handler }, .registered)
  | .revoke _ => (c, .revoked true)

/-- One step of a change. -/
def stepChange (c : Client) (job : JobId) (change : Change) :
    ChangeStage → Progress ChangeStage (Except Failure Changed)
  | .fresh => .moved (c.setGatesOf change ((c.gatesOf change).refer change.event job)) .referring
  | .referring => .moved (c.setGatesOf change ((c.gatesOf change).join job)) .atGate
  | .atGate =>
    if (c.gatesOf change).owns job then
      let (client, stage) := c.enterChange change
      .moved client stage
    else .blocked
  | .calling stage =>
    match c.stepCall job (c.changeCall change) stage with
    | .blocked => .blocked
    | .moved client stage => .moved client (.calling stage)
    | .over client (.ok _) =>
      let (client, changed) := client.settleChange change
      .moved client (.releasing (.ok changed))
    | .over client (.error f) => .moved client (.releasing (.error f))
  | .releasing result =>
    let (gates, next) := (c.gatesOf change).release job
    .moved ((c.setGatesOf change gates).wakeOption next) (.pruning result)
  | .pruning result =>
    .over (c.setGatesOf change ((c.gatesOf change).prune change.event job)) result

/-- The gate that a change holds is let go of, and pruned. -/
def leaveGate (c : Client) (job : JobId) (change : Change) : Client :=
  let (gates, next) := (c.gatesOf change).leave change.event job
  (c.setGatesOf change gates).wakeOption next

/-- A change is given up where it stands.  One that only waited at its gate leaves the queue; one
that held the gate lets go of it. -/
def dropChange (c : Client) (job : JobId) (change : Change) : ChangeStage → Client
  | .fresh => c
  | .referring | .atGate =>
    let (gates, next) := (c.gatesOf change).giveUp job
    (c.setGatesOf change gates).wakeOption next
  | .calling stage => (c.dropCall job stage).leaveGate job change
  | .releasing _ => c.leaveGate job change
  | .pruning _ => c.setGatesOf change ((c.gatesOf change).prune change.event job)

end Client

end GatewayClient
