/-
The state of a client and the operations that the steps of its jobs are made of: starting, waking
and ending jobs, handing over frames, and telling the caller of a slot that something is in it.
-/
import GatewayClient.Channel
import GatewayClient.Client.Job
import GatewayClient.Correlation.Table
import GatewayClient.Gate
import GatewayClient.Settings.Basic

namespace GatewayClient

/-- What a direct link does with a frame. -/
inductive LinkState where
  | up
  | closed
  | failing
deriving DecidableEq, Repr

/-- The way to the platform: a link that takes or refuses a frame at once, or a bounded channel. -/
inductive Link where
  | direct (state : LinkState)
  | channel (channel : Channel)
deriving DecidableEq

/-- What has come in through a channel and is not taken in yet. -/
structure Inbox where
  frames : List String := []
  isOpen : Bool := true
deriving DecidableEq, Repr

/-- Those who wait to be released, first come first served, or one release kept for the next. -/
structure Signal where
  waiting : List JobId := []
  stored : Bool := false
deriving DecidableEq, Repr

/-- A note of an invocation: the name of the listener or handler and what it was invoked with. -/
structure Note where
  name : String
  value : Json
deriving DecidableEq

/-- A client. -/
structure Client where
  settings : Settings
  /-- The time that timers go by: deadlines and sweeps come due by it. -/
  now : Nat := 0
  /-- The time that the table reads.  It stands still when the timers are set forward. -/
  clock : Nat := 0
  table : Table
  link : Link
  /-- The frames that the link has taken, in order. -/
  sent : List Json := []
  inbox : Inbox := {}
  /-- The listeners of each event, in the order in which they came.  No event has an empty list. -/
  events : Dictionary String (List (UInt64 × Listener)) := []
  nextListener : UInt64 := 1
  eventGates : Gates := {}
  providers : Dictionary String Handler := []
  providerGates : Gates := {}
  /-- The listener that was last attached under each name. -/
  attached : Dictionary String UInt64 := []
  signals : Dictionary String Signal := []
  jobs : Dictionary JobId Job := []
  nextJob : JobId := 0
  /-- The jobs to be advanced, in turn. -/
  ready : List JobId := []
  /-- What the activities that are over came to. -/
  finished : List (JobId × Outcome) := []
  /-- The jobs that listeners have started, with the name of the listener that each detaches. -/
  errands : Dictionary JobId String := []
  notes : List Note := []
deriving DecidableEq

namespace Client

/-- A client that has done nothing yet. -/
def ofSettings (settings : Settings) (link : Link) : Client where
  settings := settings
  table := { defaultTimeout := settings.waitTime }
  link := link

/-- Puts a job at the end of those to be advanced, unless it is among them. -/
def wake (c : Client) (job : JobId) : Client :=
  if job ∈ c.ready then c else { c with ready := c.ready ++ [job] }

/-- Wakes a job, if there is one to wake. -/
def wakeOption (c : Client) : Option JobId → Client
  | some job => c.wake job
  | none => c

def wakeAll (c : Client) (jobs : List JobId) : Client :=
  jobs.foldl wake c

/-- A job that cannot go on is advanced no more until it is woken. -/
def pause (c : Client) (job : JobId) : Client :=
  { c with ready := c.ready.erase job }

/-- Starts a job: the client and the job's number. -/
def start (c : Client) (job : Job) : Client × JobId :=
  ({ c with jobs := c.jobs.put c.nextJob job, nextJob := c.nextJob + 1 }.wake c.nextJob, c.nextJob)

def setJob (c : Client) (id : JobId) (job : Job) : Client :=
  { c with jobs := c.jobs.put id job }

/-- A job is there no more. -/
def removeJob (c : Client) (id : JobId) : Client :=
  { c with jobs := c.jobs.erase id, ready := c.ready.erase id }

/-- An activity ends with an outcome. -/
def finish (c : Client) (id : JobId) (outcome : Outcome) : Client :=
  { c.removeJob id with finished := c.finished ++ [(id, outcome)] }

def note (c : Client) (name : String) (value : Json) : Client :=
  { c with notes := c.notes ++ [⟨name, value⟩] }

/-- The slot that a call listens to. -/
def slotOf : CallStage → Option Nat
  | .waiting _ slot _ => some slot
  | _ => none

/-- The call that a job is in, if it is in one. -/
def callStageOf : Job → Option CallStage
  | .call _ _ stage => some stage
  | .change _ (.calling stage) => some stage
  | .provideAll _ _ (.calling stage) => some stage
  | .withdraw _ _ (.calling stage) => some stage
  | _ => none

/-- The job that listens to a slot. -/
def listenerOf (c : Client) (slot : Nat) : Option JobId :=
  (c.jobs.find? fun entry => (callStageOf entry.2).bind slotOf == some slot).map Prod.fst

/-- The client with its table changed by an operation on the entry of an id; who listens to the
entry's slot is woken. -/
def withEntry (c : Client) (id : UInt64) (table : Table) : Client :=
  let next := (c.table.pending.get? id).bind fun call => c.listenerOf call.slot
  { c with table := table }.wakeOption next

/-- Gives an outcome to the call of an id; whether it reached one. -/
def resolve (c : Client) (id : UInt64) (outcome : Outcome) : Client × Bool :=
  let (table, matched) := c.table.resolve id outcome
  (c.withEntry id table, matched)

/-- A sender brings a frame to the link for the first time. -/
def offer (c : Client) (sender : JobId) (frame : Json) : Client × SendStep :=
  match c.link with
  | .direct .up => ({ c with sent := c.sent ++ [frame] }, .sent)
  | .direct _ => (c, .failed)
  | .channel channel =>
    let (channel, step) := channel.offer sender frame
    let sent := if step = .sent then c.sent ++ [frame] else c.sent
    ({ c with link := .channel channel, sent := sent }, step)

/-- A sender that waits for room brings its frame again. -/
def offerAgain (c : Client) (sender : JobId) (frame : Json) : Client × SendStep :=
  match c.link with
  | .direct _ => c.offer sender frame
  | .channel channel =>
    let (channel, step) := channel.retry sender frame
    let sent := if step = .sent then c.sent ++ [frame] else c.sent
    ({ c with link := .channel channel, sent := sent }, step)

/-- A sender that waits for room goes away. -/
def withdrawOffer (c : Client) (sender : JobId) : Client :=
  match c.link with
  | .direct _ => c
  | .channel channel =>
    let (channel, next) := channel.giveUp sender
    { c with link := .channel channel }.wakeOption next

/-- How many listeners an event has. -/
def listenerCount (c : Client) (event : String) : Nat :=
  ((c.events.get? event).getD []).length

def isSubscribed (c : Client) (event : String) : Bool :=
  c.events.contains event

def isProvided (c : Client) (event : String) : Bool :=
  c.providers.contains event

end Client

end GatewayClient
