/-
One step of a job, and giving a job up.  A job that cannot go on for now has no step; every other
step is one of those of a call or a change, or is a job's own.
-/
import GatewayClient.Client.Delivery

namespace GatewayClient

namespace Client

/-- A change is over: its outcome is known, and a listener's name means the one just attached. -/
def finishChange (c : Client) (job : JobId) (change : Change) (result : Except Failure Changed) :
    Client :=
  let client :=
    match change, result with
    | .subscribe _ listener, .ok (.attached id) =>
      { c with attached := c.attached.put listener.name id }
    | _, _ => c
  client.finish job (result.map Changed.toJson)

/-- One step of providing several handlers.  A refusal makes the job take back what is newly
provided. -/
def stepProvideAll? (c : Client) (job : JobId) (todo : List (String × Handler)) (made : List String)
    (stage : ChangeStage) : Option Client :=
  match todo with
  | [] => some (c.finish job (.ok .null))
  | (event, handler) :: rest =>
    match c.stepChange job (.provide event handler) stage with
    | .blocked => none
    | .moved client stage => some (client.setJob job (.provideAll todo made stage))
    | .over client (.ok .registered) =>
      some (client.setJob job (.provideAll rest (made ++ [event]) .fresh))
    | .over client (.ok _) => some (client.setJob job (.provideAll rest made .fresh))
    | .over client (.error f) => some (client.setJob job (.withdraw f made .fresh))

/-- One step of taking back what was newly provided, whatever the platform says to it. -/
def stepWithdraw? (c : Client) (job : JobId) (reason : Failure) (todo : List String)
    (stage : ChangeStage) : Option Client :=
  match todo with
  | [] => some (c.finish job (.error reason))
  | event :: rest =>
    match c.stepChange job (.revoke event) stage with
    | .blocked => none
    | .moved client stage => some (client.setJob job (.withdraw reason todo stage))
    | .over client _ => some (client.setJob job (.withdraw reason rest .fresh))

/-- One step of an answer.  The handler is run by another job; a call without one is refused. -/
def stepAnswer? (c : Client) (job : JobId) (id : Json) (method : String) :
    AnswerStage → Option Client
  | .fresh none _ => some (c.setJob job (.answer id method (.ready (.error .methodNotFound))))
  | .fresh (some handler) params =>
    some ((c.start (.handle job handler method (.fresh params))).1.setJob job
      (.answer id method .running))
  | .running => none
  | .ready outcome =>
    match c.offer job (Response.ofOutcome id outcome).toJson with
    | (client, .waits) => some (client.setJob job (.answer id method (.crowded outcome)))
    | (client, _) => some (client.removeJob job)
  | .crowded outcome =>
    match c.offerAgain job (Response.ofOutcome id outcome).toJson with
    | (_, .waits) => none
    | (client, _) => some (client.removeJob job)

/-- A handler's run is over: the answer that it ran for has its outcome. -/
def finishHandling (c : Client) (job answer : JobId) (outcome : Outcome) : Client :=
  let client := c.removeJob job
  match client.jobs.get? answer with
  | some (.answer id method .running) =>
    (client.setJob answer (.answer id method (.ready outcome))).wake answer
  | _ => client

/-- Comes to wait for a release of `name`: whether one was kept, which is used up. -/
def awaitSignal (c : Client) (name : String) (job : JobId) : Client × Bool :=
  let signal := (c.signals.get? name).getD {}
  if signal.stored then
    ({ c with signals := c.signals.put name { signal with stored := false } }, true)
  else
    let signal := { signal with waiting := signal.waiting ++ [job] }
    ({ c with signals := c.signals.put name signal }, false)

/-- Whether a job waits for a release of `name`. -/
def awaits (c : Client) (name : String) (job : JobId) : Bool :=
  decide (job ∈ ((c.signals.get? name).getD {}).waiting)

/-- Releases who has waited longest for `name`, or keeps the release. -/
def release (c : Client) (name : String) : Client :=
  let signal := (c.signals.get? name).getD {}
  match signal.waiting with
  | [] => { c with signals := c.signals.put name { signal with stored := true } }
  | job :: rest =>
    { c with signals := c.signals.put name { signal with waiting := rest } }.wake job

/-- One step of a handler's run. -/
def stepHandle? (c : Client) (job answer : JobId) (handler : Handler) (method : String)
    (stage : HandlingStage) : Option Client :=
  match handler with
  | .mute => some (c.finishHandling job answer (.error .general))
  | .scripted name label request reply script =>
    match stage with
    | .fresh params =>
      match Handler.invocation? label request method params with
      | none => some (c.finishHandling job answer (.error .invalidParams))
      | some invocation =>
        let client := c.note name invocation.toJson
        match script.wait with
        | none => some (client.setJob job (.handle answer handler method (.ending invocation)))
        | some signal =>
          let (client, released) := client.awaitSignal signal job
          let stage := if released then .ending invocation else .waiting signal invocation
          some (client.setJob job (.handle answer handler method stage))
    | .waiting signal invocation =>
      if c.awaits signal job then none
      else some (c.setJob job (.handle answer handler method (.ending invocation)))
    | .ending invocation =>
      some (c.finishHandling job answer (Handler.conclude reply invocation script.ending))

/-- A call that a sweep has found is ended if it is still there. -/
def sweepOne (c : Client) (startedAt : Nat) (id : UInt64) : Client :=
  c.withEntry id (c.table.removeIfExpired startedAt id).1

/-- The time of the sweep after one that was due at `due` and is made at `now`.  A sweep that is
late by more than five milliseconds skips those that were due meanwhile. -/
def nextSweep (due now interval : Nat) : Nat :=
  if due + 5 < now then now + interval - (now - due) % interval else due + interval

/-- One step of a sweeper.  A timer says when it sweeps, and the table's clock what has expired. -/
def stepSweep? (c : Client) (job : JobId) (next : Nat) : SweepStage → Option Client
  | .resting =>
    if c.now < next then none
    else
      let later := nextSweep next c.now c.settings.cleanupInterval
      some (c.setJob job (.sweep later (.removing c.clock (c.table.expiredIds c.clock))))
  | .removing _ [] => some (c.setJob job (.sweep next .resting))
  | .removing startedAt (id :: rest) =>
    some ((c.sweepOne startedAt id).setJob job (.sweep next (.removing startedAt rest)))

/-- One step of taking in what has come through the channel. -/
def stepReceive? (c : Client) (job : JobId) : Option Client :=
  match c.inbox.frames with
  | text :: rest => some ({ c with inbox := { c.inbox with frames := rest } }.deliver text true).1
  | [] => if c.inbox.isOpen then none else some (c.removeJob job)

/-- One step of a job, if it can go on. -/
def stepJob? (c : Client) (id : JobId) : Option Client :=
  match c.jobs.get? id with
  | none => none
  | some (.call call expected stage) =>
    match c.stepCall id call stage with
    | .blocked => none
    | .moved client stage => some (client.setJob id (.call call expected stage))
    | .over client outcome => some (client.finish id (outcome.bind expected.read))
  | some (.change change stage) =>
    match c.stepChange id change stage with
    | .blocked => none
    | .moved client stage => some (client.setJob id (.change change stage))
    | .over client result => some (client.finishChange id change result)
  | some (.provideAll todo made stage) => c.stepProvideAll? id todo made stage
  | some (.withdraw reason todo stage) => c.stepWithdraw? id reason todo stage
  | some (.answer frameId method stage) => c.stepAnswer? id frameId method stage
  | some (.handle answer handler method stage) => c.stepHandle? id answer handler method stage
  | some (.sweep next stage) => c.stepSweep? id next stage
  | some .receive => c.stepReceive? id

/-- Gives a job up where it stands; it comes to nothing. -/
def dropJob (c : Client) (id : JobId) : Client :=
  match c.jobs.get? id with
  | none => c
  | some job =>
    let client :=
      match job with
      | .call _ _ stage => c.dropCall id stage
      | .change change stage => c.dropChange id change stage
      | .provideAll ((event, handler) :: _) _ stage =>
        c.dropChange id (.provide event handler) stage
      | .withdraw _ (event :: _) stage => c.dropChange id (.revoke event) stage
      | .answer _ _ (.crowded _) => c.withdrawOffer id
      | _ => c
    client.removeJob id

end Client

end GatewayClient
