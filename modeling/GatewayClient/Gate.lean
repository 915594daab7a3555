/-
Gates, one for each name on which a change is under way.  A gate has one owner at a time and lets
the others in first come, first served; whoever lets go of a gate that nobody else refers to takes
it off the file.  Referring to a gate and queueing at it are two steps, and so are letting go and
taking off the file; others may come in between.  Counting the references and giving up one's own
are one step.  On several threads another visitor may count between these two as well; it then finds
one reference more and leaves the gate on file.
-/
import GatewayClient.Dictionary

namespace GatewayClient

/-- A gate: who holds it or has been let in, and who waits. -/
structure Gate where
  owner : Option Nat := none
  queue : List Nat := []
deriving DecidableEq, Repr

/-- The gates on file by name, all gates ever made by number, and the gate of each ticket. -/
structure Gates where
  onFile : Dictionary String Nat := []
  gates : List Gate := []
  tickets : Dictionary Nat Nat := []
deriving DecidableEq, Repr

namespace Gates

/-- The gate of a number. -/
def gate (g : Gates) (number : Nat) : Gate :=
  (g.gates[number]?).getD {}

def setGate (g : Gates) (number : Nat) (gate : Gate) : Gates :=
  { g with gates := g.gates.set number gate }

/-- The gate of a name; a new one goes on file if there is none. -/
def open? (g : Gates) (name : String) : Gates × Nat :=
  match g.onFile.get? name with
  | some number => (g, number)
  | none =>
    ({ g with onFile := g.onFile.put name g.gates.length, gates := g.gates ++ [{}] },
      g.gates.length)

/-- A ticket is made out for the gate of a name, which refers to that gate from now on. -/
def refer (g : Gates) (name : String) (ticket : Nat) : Gates :=
  let (g, number) := g.open? name
  { g with tickets := g.tickets.put ticket number }

/-- A ticket's holder comes to its gate: takes the gate if it is free, and queues else. -/
def join (g : Gates) (ticket : Nat) : Gates :=
  match g.tickets.get? ticket with
  | some number =>
    let gate := g.gate number
    match gate.owner with
    | none => g.setGate number { gate with owner := some ticket }
    | some _ => g.setGate number { gate with queue := gate.queue ++ [ticket] }
  | none => g

/-- Whether a ticket's gate is open for it. -/
def owns (g : Gates) (ticket : Nat) : Bool :=
  match g.tickets.get? ticket with
  | some number => (g.gate number).owner == some ticket
  | none => false

/-- Hands a gate on to the head of its queue; says who was let in. -/
def handOn (g : Gates) (number : Nat) : Gates × Option Nat :=
  let gate := g.gate number
  match gate.queue with
  | [] => (g.setGate number { gate with owner := none }, none)
  | head :: rest => (g.setGate number ⟨some head, rest⟩, some head)

/-- The owner of a gate lets go of it, still referring to it; says who was let in. -/
def release (g : Gates) (ticket : Nat) : Gates × Option Nat :=
  match g.tickets.get? ticket with
  | some number => g.handOn number
  | none => (g, none)

/-- How many refer to a gate: its tickets, and the file once for each name it stands under. -/
def references (g : Gates) (number : Nat) : Nat :=
  (g.tickets.filter fun t => t.2 == number).length +
    (g.onFile.filter fun entry => entry.2 == number).length

/-- After letting go: takes the gate of `name` off the file if only the file and the ticket refer to
it, and gives the ticket up. -/
def prune (g : Gates) (name : String) (ticket : Nat) : Gates :=
  match g.tickets.get? ticket with
  | some number =>
    let onFile := if g.references number = 2 then g.onFile.erase name else g.onFile
    { g with onFile := onFile, tickets := g.tickets.erase ticket }
  | none => g

/-- Lets go of the gate of a name and prunes; says who was let in. -/
def leave (g : Gates) (name : String) (ticket : Nat) : Gates × Option Nat :=
  let (g, next) := g.release ticket
  (g.prune name ticket, next)

/-- A ticket is given up before it was used: it leaves the queue, or hands on what it was let in to.
Nothing is taken off the file. -/
def giveUp (g : Gates) (ticket : Nat) : Gates × Option Nat :=
  match g.tickets.get? ticket with
  | some number =>
    let (g, next) :=
      if g.owns ticket then g.handOn number
      else
        let gate := g.gate number
        (g.setGate number { gate with queue := gate.queue.erase ticket }, none)
    ({ g with tickets := g.tickets.erase ticket }, next)
  | none => (g, none)

end Gates

end GatewayClient
