/-
Runs of a client.  A run is a list of moves: a step of some job, something that comes from outside,
or time that passes, where the timers may also be set forward alone.  The schedule is one way to
make them: the jobs that are ready are advanced in turn, each as far as it can go, and time passes
only when none can.
-/
import GatewayClient.Client.Step

namespace GatewayClient

namespace Client

/-- Starts an activity: the client and the number of its job. -/
def begin (c : Client) (activity : Activity) : Client × JobId :=
  c.start activity.toJob

/-- Starts a sweeper; its first sweep is due at once. -/
def startSweeper (c : Client) : Client :=
  (c.start (.sweep c.now .resting)).1

/-- Starts a job that takes in what comes through the channel. -/
def startReceiver (c : Client) : Client :=
  (c.start .receive).1

/-- The jobs that take in what comes through the channel. -/
def receivers (c : Client) : List JobId :=
  (c.jobs.filter fun entry => decide (entry.2 = .receive)).map Prod.fst

/-- A frame comes in through the channel. -/
def arrive (c : Client) (text : String) : Client :=
  let client := { c with inbox := { c.inbox with frames := c.inbox.frames ++ [text] } }
  client.wakeAll client.receivers

/-- Nothing more comes in through the channel. -/
def closeInbox (c : Client) : Client :=
  let client := { c with inbox := { c.inbox with isOpen := false } }
  client.wakeAll client.receivers

/-- The platform takes a frame out of the channel. -/
def takeFrame (c : Client) : Client × Option Json :=
  match c.link with
  | .direct _ => (c, none)
  | .channel channel =>
    let (channel, frame, next) := channel.takeFrame
    ({ c with link := .channel channel }.wakeOption next, frame)

/-- The platform lets go of its end of the channel. -/
def closeChannel (c : Client) : Client :=
  match c.link with
  | .direct _ => c
  | .channel channel =>
    let (channel, senders) := channel.close
    { c with link := .channel channel }.wakeAll senders

/-- A direct link comes up or goes down. -/
def setLink (c : Client) (state : LinkState) : Client :=
  match c.link with
  | .direct _ => { c with link := .direct state }
  | .channel _ => c

/-- When a job has to be advanced at the latest, if time alone lets it go on. -/
def deadlineOf : Job → Option Nat
  | .sweep next .resting => some next
  | job =>
    match callStageOf job with
    | some (.waiting _ _ deadline) => some deadline
    | _ => none

/-- Where a job stands among those of one deadline: sweepers first, then calls in the order in which
they were entered. -/
def rankOf (job : Job) : Nat :=
  match (callStageOf job).bind slotOf with
  | some slot => slot + 1
  | none => 0

/-- The jobs whose deadline has come, in order. -/
def dueJobs (c : Client) : List JobId :=
  let due := c.jobs.filter fun entry => (deadlineOf entry.2).any fun deadline => deadline ≤ c.now
  (due.mergeSort fun a b => decide (rankOf a.2 ≤ rankOf b.2)).map Prod.fst

/-- The timers are set forward; the jobs whose deadline has come are woken. -/
def skip (c : Client) (ms : Nat) : Client :=
  let client := { c with now := c.now + ms }
  client.wakeAll client.dueJobs

/-- Time passes, for the timers and for the table. -/
def elapse (c : Client) (ms : Nat) : Client :=
  { c with clock := c.clock + ms }.skip ms

end Client

/-- Something that happens to a client. -/
inductive Move where
  /-- A job makes a step, or is ready no more if it cannot. -/
  | advance (job : JobId)
  | begin (activity : Activity)
  | startSweeper
  | startReceiver
  | drop (job : JobId)
  | deliver (text : String) (answering : Bool)
  | dispatch (event : String) (value : Json)
  | arrive (text : String)
  | closeInbox
  | takeFrame
  | closeChannel
  | setLink (state : LinkState)
  | release (name : String)
  | elapse (ms : Nat)
  | skip (ms : Nat)
deriving DecidableEq

namespace Client

/-- The client after a move. -/
def move (c : Client) : Move → Client
  | .advance job => (c.stepJob? job).getD (c.pause job)
  | .begin activity => (c.begin activity).1
  | .startSweeper => c.startSweeper
  | .startReceiver => c.startReceiver
  | .drop job => c.dropJob job
  | .deliver text answering => (c.deliver text answering).1
  | .dispatch event value => (c.dispatch event value).1
  | .arrive text => c.arrive text
  | .closeInbox => c.closeInbox
  | .takeFrame => c.takeFrame.1
  | .closeChannel => c.closeChannel
  | .setLink state => c.setLink state
  | .release name => c.release name
  | .elapse ms => c.elapse ms
  | .skip ms => c.skip ms

/-- The client after a run. -/
def run (c : Client) (moves : List Move) : Client :=
  moves.foldl move c

/-- The earliest deadline after now and not after `target`. -/
def nextDeadline? (c : Client) (target : Nat) : Option Nat :=
  ((c.jobs.filterMap fun entry => deadlineOf entry.2).filter fun deadline =>
    decide (c.now < deadline ∧ deadline ≤ target)).min?

/-- The first job that is ready is advanced. -/
def turn? (c : Client) : Option Client :=
  match c.ready with
  | [] => none
  | job :: _ => some (c.move (.advance job))

/-- So many turns, or until no job is ready. -/
def turns (c : Client) : Nat → Client
  | 0 => c
  | more + 1 =>
    match c.turn? with
    | some client => turns client more
    | none => c

/-- How much a job can have to do, in changes of one event. -/
def sizeOf : Job → Nat
  | .provideAll todo made _ => 1 + 2 * todo.length + made.length
  | .withdraw _ todo _ => 1 + todo.length
  | _ => 1

/-- More turns than the jobs can take until none can go on: a job takes few for each thing it has to
do, a frame that has come in starts no more jobs than there may be listeners, and a sweep ends no
more calls than are pending. -/
def workload (c : Client) : Nat :=
  let size := c.jobs.foldl (fun n entry => n + sizeOf entry.2) 0
  let listeners := c.events.foldl (fun n entry => n + entry.2.length) 0
  let frames := c.inbox.frames.length
  32 * (1 + size * (1 + c.table.pendingCount + size) + frames * (1 + listeners + size))

/-- The jobs are advanced until none can go on. -/
def settle (c : Client) : Client :=
  c.turns c.workload

/-- Time passes up to `target`, from deadline to deadline, so many of them at most, each time by the
move `pass`.  At each the jobs are advanced until none can go on. -/
def advanceTo (c : Client) (pass : Nat → Move) (target : Nat) : Nat → Client
  | 0 => c
  | more + 1 =>
    match c.nextDeadline? target with
    | some deadline => advanceTo (c.move (pass (deadline - c.now))).settle pass target more
    | none => c.move (pass (target - c.now))

/-- So much time passes.  Deadlines are whole milliseconds, so there are no more of them in it. -/
def advance (c : Client) (pass : Nat → Move) (ms : Nat) : Client :=
  c.advanceTo pass (c.now + ms) (ms + 1)

end Client

end GatewayClient
