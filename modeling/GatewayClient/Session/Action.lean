/-
The actions of a session and what each says.
-/
import GatewayClient.Session.Basic

namespace GatewayClient

namespace Session

/-- Something done in a session. -/
inductive Action where
  /-- Starts an activity under a tag. -/
  | start (tag : String) (activity : Activity)
  /-- Starts the detaching of the listener last attached under a name. -/
  | detach (tag event listener : String)
  | getProperty (tag name : String)
  | setProperty (tag name : String) (value : Json)
  | callMethod (tag name : String) (params : Json)
  | onChange (tag name listener : String)
  | offChange (tag name listener : String)
  | describe (name : String)
  | serve (tag : String) (service : Catalog.Service) (handler : String) (script : Script)
  | provideCustom (tag : String) (capability : Capability) (handler : String) (script : Script)
  | subscribeCustom (tag : String) (event : Event) (listener : String)
  | drop (tag : String)
  | settings
  | dispatch (event : String) (value : Json)
  | deliver (text : String) (answering : Bool)
  | takeIn (arrivals : List Arrival)
  | answerBy (members : Option (List (String × Json)))
  | setLink (state : LinkState)
  | release (name : String)
  | advance (ms : Nat)
  | register (method : String) (timeout : Option Nat)
  | receive (id : UInt64)
  | startSweeper
  | drain (limit : Option Nat)
  | push (text : String)
  | closeInbox
  | closeChannel

/-- Why an action does nothing. -/
inductive Refusal where
  | noTask
  | noListener
  | badArgument
  | unknownName
  | noChannel
deriving DecidableEq, Repr

/-- What an action says. -/
inductive Reply where
  | nothing
  | truth (value : Bool)
  | id (id : UInt64)
  | count (n : Nat)
  | settings (settings : Settings)
  | property (property : Property)
  | delivery (delivery : Delivery)
  | taken (receives : Nat)
  | frames (frames : List Json)
  | receipt (receipt : Receipt)
  | refused (reason : Refusal)

/-- The events of an action that are reported from then on. -/
def Action.watches : Action → List String
  | .serve _ service _ _ => service.capabilities.map fun c => c.1.wireName
  | .provideCustom _ capability _ _ => [capability.wireName]
  | .subscribeCustom _ event _ => [event.wireName]
  | _ => []

/-- Reports the listeners and the provider of an event from now on. -/
def watch (s : Session) (event : String) : Session :=
  if event ∈ s.watched then s else { s with watched := s.watched ++ [event] }

/-- Starts an activity under a tag. -/
def startTask (s : Session) (tag : String) (activity : Activity) : Session :=
  let (client, job) := s.client.begin activity
  { s with client := client, tasks := s.tasks.put tag job, tags := s.tags.put job tag }

/-- Starts an activity that has to do with the listener last attached under a name. -/
def startWith (s : Session) (tag listener : String) (activity : UInt64 → Activity) :
    Session × Reply :=
  match s.client.attached.get? listener with
  | some id => (s.startTask tag (activity id), .nothing)
  | none => (s, .refused .noListener)

/-- Starts an activity whose argument could be read, if it could. -/
def startIf (s : Session) (tag : String) : Option Activity → Session × Reply
  | some activity => (s.startTask tag activity, .nothing)
  | none => (s, .refused .badArgument)

/-- Takes frames out of the channel, so many at most. -/
def drain (client : Client) : Nat → Client × List Json
  | 0 => (client, [])
  | more + 1 =>
    match client.takeFrame with
    | (client, some frame) =>
      let (client, frames) := drain client more
      (client, frame :: frames)
    | (client, none) => (client, [])

/-- How many frames are in the channel. -/
def inChannel (client : Client) : Nat :=
  match client.link with
  | .direct _ => 0
  | .channel channel => channel.frames.length

/-- The session with its client changed by an operation, and what the operation says. -/
def withClient {α : Type} (s : Session) (result : Client × α) (reply : α → Reply) :
    Session × Reply :=
  ({ s with client := result.1 }, reply result.2)

/-- Does an action, before the jobs are advanced. -/
def act (s : Session) : Action → Session × Reply
  | .start tag activity => (s.startTask tag activity, .nothing)
  | .detach tag event listener =>
    s.startWith tag listener fun id => .change (.unsubscribe event id)
  | .getProperty tag name =>
    match Catalog.property? name with
    | some p => (s.startTask tag p.get, .nothing)
    | none => (s, .refused .unknownName)
  | .setProperty tag name value =>
    match Catalog.property? name with
    | some p => if p.writable then s.startIf tag (p.set? value) else (s, .refused .unknownName)
    | none => (s, .refused .unknownName)
  | .callMethod tag name params =>
    match Catalog.method? name with
    | some m => s.startIf tag (m.call? params)
    | none => (s, .refused .unknownName)
  | .onChange tag name listener =>
    match Catalog.property? name, Catalog.event? name with
    | some p, _ => (s.startTask tag (p.onChange listener), .nothing)
    | none, some e => (s.startTask tag (e.subscribe listener), .nothing)
    | none, none => (s, .refused .unknownName)
  | .offChange tag name listener =>
    match Catalog.property? name, Catalog.event? name with
    | some p, _ => s.startWith tag listener p.offChange
    | none, some e => s.startWith tag listener e.unsubscribe
    | none, none => (s, .refused .unknownName)
  | .describe name =>
    match Catalog.property? name with
    | some p => (s, .property p)
    | none => (s, .refused .unknownName)
  | .serve tag service handler script =>
    (s.startTask tag (service.provide handler script), .nothing)
  | .provideCustom tag capability handler script =>
    (s.startTask tag (capability.provide handler "custom" script), .nothing)
  | .subscribeCustom tag event listener => (s.startTask tag (event.subscribe listener), .nothing)
  | .drop tag =>
    match s.tasks.get? tag with
    | none => (s, .refused .noTask)
    | some job =>
      let running := s.client.jobs.contains job
      ({ s with client := s.client.dropJob job, tasks := s.tasks.erase tag }, .truth running)
  | .settings => (s, .settings s.client.settings)
  | .dispatch event value => s.withClient (s.client.dispatch event value) .count
  | .deliver text answering => s.withClient (s.client.deliver text answering) .delivery
  | .takeIn arrivals => s.withClient (s.client.takeIn arrivals) .taken
  | .answerBy members => ({ s with answer := members, seen := s.carried.length }, .nothing)
  | .setLink state => ({ s with client := s.client.setLink state }, .nothing)
  | .release name => ({ s with client := s.client.release name }, .nothing)
  | .advance ms =>
    ({ s with client := s.client.advance (if s.sleeps then .elapse else .skip) ms }, .nothing)
  | .register method timeout =>
    let (table, id, slot) := s.client.table.register method timeout s.client.clock
    ({ s with
        client := { s.client with table := table }
        receivers := s.receivers.put id slot
        sleeps := true },
      .id id)
  | .receive id =>
    let (table, receipt) := s.client.table.receive s.receivers id
    ({ s with client := { s.client with table := table } }, .receipt receipt)
  | .startSweeper => ({ s with client := s.client.startSweeper }, .nothing)
  | .drain limit =>
    let present := inChannel s.client
    s.withClient (drain s.client (min (limit.getD present) present)) fun frames =>
      .frames (frames.map received)
  | .push text =>
    if s.client.inbox.isOpen then ({ s with client := s.client.arrive text }, .truth true)
    else (s, .refused .noChannel)
  | .closeInbox => ({ s with client := s.client.closeInbox }, .nothing)
  | .closeChannel => ({ s with client := s.client.closeChannel }, .nothing)

/-- What is reported after an action. -/
structure Report where
  reply : Reply
  /-- The frames that were carried, as the platform has them. -/
  carried : List Json
  finished : List (String × Outcome)
  notes : List Note
  pending : Nat
  tally : Tally
  subscribed : List (String × Nat)
  provided : List String
  /-- Whether a job takes in what comes through the channel, if there is one. -/
  receiving : Option Bool

/-- The name under which an activity that is over is reported; one started by a listener is known by
the listener that it detaches. -/
def nameOf (s : Session) (job : JobId) : Option String :=
  match s.tags.get? job with
  | some tag => some tag
  | none => (s.client.errands.get? job).map fun target => "detach:" ++ target

/-- What is reported now, with the reply of the last action. -/
def report (s : Session) (reply : Reply) : Report where
  reply := reply
  carried := (s.carried.drop s.reported).map received
  finished :=
    ((s.client.finished.drop s.told).filterMap fun (job, outcome) =>
      (s.nameOf job).map fun name => (name, outcome)).mergeSort fun a b => decide (a.1 ≤ b.1)
  notes := s.client.notes.drop s.noted
  pending := s.client.table.pendingCount
  tally := s.client.table.tally
  subscribed :=
    (s.watched.filter s.client.isSubscribed).map fun event => (event, s.client.listenerCount event)
  provided := (s.watched.filter s.client.isProvided).mergeSort fun a b => decide (a ≤ b)
  receiving :=
    match s.client.link with
    | .direct _ => none
    | .channel _ => some !s.client.receivers.isEmpty

/-- What has been reported is not reported again. -/
def forget (s : Session) : Session :=
  { s with
    reported := s.carried.length
    told := s.client.finished.length
    noted := s.client.notes.length }

/-- Does an action, if it is one, advances the jobs until none can go on, and reports. -/
def perform (s : Session) (events : List String) (action : Action) : Session × Report :=
  let (s, reply) := ((events ++ action.watches).foldl watch s).act action
  let s := s.settle
  (s.forget, s.report reply)

/-- A step that is no action: nothing is done, and what there is to report is reported. -/
def pass (s : Session) (events : List String) : Session × Report :=
  let s := (events.foldl watch s).settle
  (s.forget, s.report .nothing)

end Session

end GatewayClient
