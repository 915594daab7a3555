/-
The steps of a call: it enters the table, hands its frame over, waits for its reply until its
deadline, and looks after its entry when it is over, whatever ended it.  The deadline is a timer's
and counts from when the frame was handed over.
-/
import GatewayClient.Client.Basic

namespace GatewayClient

/-- What one step of something with stages comes to: it cannot go on for now, it is at a new stage,
or it is over. -/
inductive Progress (σ : Type) (α : Type) where
  | blocked
  | moved (client : Client) (stage : σ)
  | over (client : Client) (result : α)

namespace Client

/-- The timeout of a call. -/
def timeoutOf (c : Client) (call : Call) : Nat :=
  call.timeout.getD c.table.defaultTimeout

/-- The frame of a call. -/
def requestFrame (call : Call) (id : UInt64) : Json :=
  (Request.make id call.method (call.params.getD .null)).toJson

/-- A call enters the table. -/
def enter (c : Client) (call : Call) : Client × CallStage :=
  let (table, id, slot) := c.table.register call.method (some (c.timeoutOf call)) c.clock
  ({ c with table := table }, .entered id slot)

/-- The stage of a call whose frame has been brought to the link. -/
def afterOffer (c : Client) (call : Call) (id : UInt64) (slot : Nat) : SendStep → CallStage
  | .sent => .waiting id slot (c.now + c.timeoutOf call)
  | .failed => .over id slot (.error .notConnected)
  | .waits => .crowded id slot

/-- The client without the entry of a call that ends without an outcome. -/
def abandon (c : Client) (id : UInt64) : Client :=
  { c with table := (c.table.abandon id).1 }

/-- A call brings its frame to the link.  If the link refuses it, the entry is taken out. -/
def sendCall (c : Client) (call : Call) (id : UInt64) (slot : Nat) (sending : Client × SendStep) :
    Progress CallStage Outcome :=
  let (sender, step) := sending
  let client := if step = .failed then sender.abandon id else sender
  .moved client (c.afterOffer call id slot step)

/-- What a call finds in its slot.  An outcome that is there goes before the deadline. -/
def lookInSlot (c : Client) (id : UInt64) (slot deadline : Nat) : Progress CallStage Outcome :=
  match c.table.content slot with
  | .filled outcome =>
    .moved { c with table := (c.table.takeOutcome slot).1 } (.over id slot outcome)
  | .closed => .moved c (.over id slot (.error .general))
  | .empty =>
    if deadline ≤ c.now then .moved { c with table := c.table.dropListener slot } (.overdue id slot)
    else .blocked

/-- Nobody listens for a call any more, and it has no entry. -/
def leaveEntry (c : Client) (id : UInt64) (slot : Nat) : Client :=
  let client := c.abandon id
  { client with table := client.table.dropListener slot }

/-- One step of a call. -/
def stepCall (c : Client) (job : JobId) (call : Call) : CallStage → Progress CallStage Outcome
  | .fresh =>
    match call.params with
    | none => .over c (.error .invalidParams)
    | some _ =>
      let (client, stage) := c.enter call
      .moved client stage
  | .entered id slot => c.sendCall call id slot (c.offer job (requestFrame call id))
  | .crowded id slot =>
    match c.offerAgain job (requestFrame call id) with
    | (_, .waits) => .blocked
    | sending => c.sendCall call id slot sending
  | .waiting id slot deadline => c.lookInSlot id slot deadline
  | .overdue id slot =>
    .moved { c with table := (c.table.cancel id).1 } (.over id slot (.error .timeout))
  | .over id slot outcome => .over (c.leaveEntry id slot) outcome

/-- A call is given up where it stands: it leaves the link's queue and its entry is taken out. -/
def dropCall (c : Client) (job : JobId) : CallStage → Client
  | .fresh => c
  | .entered id slot => c.leaveEntry id slot
  | .crowded id slot => (c.withdrawOffer job).leaveEntry id slot
  | .waiting id slot _ => c.leaveEntry id slot
  | .overdue id slot => c.leaveEntry id slot
  | .over id slot _ => c.leaveEntry id slot

end Client

end GatewayClient
