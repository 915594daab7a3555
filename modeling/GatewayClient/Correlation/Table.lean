/-
The table of calls that wait for their replies.  Every call has an id of its own, a deadline, and a
slot through which its outcome reaches the caller; the first operation that removes an entry decides
what its slot gets.  A tally counts what became of the calls.
-/
import GatewayClient.Dictionary
import GatewayClient.Failure

namespace GatewayClient

/-- What a slot has got: nothing yet, an outcome that nobody has taken, or nothing any more. -/
inductive SlotContent where
  | empty
  | filled (outcome : Outcome)
  | closed
deriving DecidableEq

/-- A cell that carries at most one outcome from the table to a caller. -/
structure Slot where
  content : SlotContent
  listening : Bool
deriving DecidableEq

namespace Slot

def fresh : Slot :=
  ⟨.empty, true⟩

/-- Puts an outcome in, if somebody still listens; the sending end is gone either way. -/
def fill (s : Slot) (outcome : Outcome) : Slot :=
  if s.listening then { s with content := .filled outcome } else { s with content := .closed }

/-- The sending end goes without an outcome. -/
def close (s : Slot) : Slot :=
  { s with content := .closed }

/-- The outcome is taken out. -/
def take (s : Slot) : Slot :=
  { s with content := .closed }

/-- The listening end goes. -/
def abandon (s : Slot) : Slot :=
  { s with listening := false }

end Slot

/-- A call that waits for its reply. -/
structure PendingCall where
  slot : Nat
  registeredAt : Nat
  method : String
  timeout : Nat
deriving DecidableEq

namespace PendingCall

/-- Whether more than the call's timeout has passed. -/
def isExpired (p : PendingCall) (now : Nat) : Bool :=
  decide (p.timeout < now - p.registeredAt)

end PendingCall

/-- What became of the calls; the counters are words. -/
structure Tally where
  registered : UInt64 := 0
  resolved : UInt64 := 0
  timeouts : UInt64 := 0
  cancelled : UInt64 := 0
  discarded : UInt64 := 0
deriving DecidableEq, Repr

/-- The calls that wait, the next id to draw, and the slots ever made, by number. -/
structure Table where
  pending : Dictionary UInt64 PendingCall := []
  next : UInt64 := 1
  defaultTimeout : Nat
  tally : Tally := {}
  slots : List Slot := []
deriving DecidableEq

namespace Table

/-- Draws ids, one after the other; the greatest word is followed by zero. -/
def drawIds (first : UInt64) : Nat → List UInt64
  | 0 => []
  | count + 1 => first :: drawIds (first + 1) count

/-- The first id from `candidate` on that is not taken, looked for among so many more. -/
def freshId (taken : List UInt64) (candidate : UInt64) : Nat → UInt64
  | 0 => candidate
  | more + 1 => if candidate ∈ taken then freshId taken (candidate + 1) more else candidate

def pendingIds (t : Table) : List UInt64 :=
  t.pending.keys

def isPending (t : Table) (id : UInt64) : Bool :=
  t.pending.contains id

def pendingCount (t : Table) : Nat :=
  t.pending.length

/-- The table with one slot changed. -/
def modifySlot (t : Table) (slot : Nat) (change : Slot → Slot) : Table :=
  { t with slots := t.slots.modify slot change }

/-- What a slot has got; a slot never made has nothing to give. -/
def content (t : Table) (slot : Nat) : SlotContent :=
  match t.slots[slot]? with
  | some s => s.content
  | none => .closed

/-- Enters a call: its id, and the number of the slot to listen to.  Ids still in use are passed
over, so among one more candidates than calls waiting there is a free one. -/
def register (t : Table) (method : String) (timeout : Option Nat) (now : Nat) :
    Table × UInt64 × Nat :=
  let id := freshId t.pendingIds t.next t.pending.length
  let slot := t.slots.length
  let call : PendingCall := ⟨slot, now, method, timeout.getD t.defaultTimeout⟩
  ({ t with
      pending := t.pending.put id call
      next := id + 1
      tally := { t.tally with registered := t.tally.registered + 1 }
      slots := t.slots ++ [.fresh] },
    id, slot)

/-- Removes an entry. -/
def remove (t : Table) (id : UInt64) : Table :=
  { t with pending := t.pending.erase id }

/-- One more that timed out. -/
def countTimeout (t : Table) : Table :=
  { t with tally := { t.tally with timeouts := t.tally.timeouts + 1 } }

def countResolved (t : Table) : Table :=
  { t with tally := { t.tally with resolved := t.tally.resolved + 1 } }

def countCancelled (t : Table) : Table :=
  { t with tally := { t.tally with cancelled := t.tally.cancelled + 1 } }

def countDiscarded (t : Table) : Table :=
  { t with tally := { t.tally with discarded := t.tally.discarded + 1 } }

/-- Whether a slot's caller still listens. -/
def isListening (t : Table) (slot : Nat) : Bool :=
  match t.slots[slot]? with
  | some s => s.listening
  | none => false

/-- Gives an outcome to the call of an id; whether it reached one.  An outcome that nobody waits for
is discarded. -/
def resolve (t : Table) (id : UInt64) (outcome : Outcome) : Table × Bool :=
  match t.pending.get? id with
  | none => (t.countDiscarded, false)
  | some call =>
    let filled := (t.remove id).modifySlot call.slot (·.fill outcome)
    if t.isListening call.slot then (filled.countResolved, true) else (filled.countDiscarded, false)

/-- Ends the call of an id by its deadline; whether there was one. -/
def cancel (t : Table) (id : UInt64) : Table × Bool :=
  match t.pending.get? id with
  | none => (t, false)
  | some call =>
    (((t.remove id).modifySlot call.slot (·.fill (.error .timeout))).countTimeout, true)

/-- Ends the call of an id without an outcome; whether there was one. -/
def abandon (t : Table) (id : UInt64) : Table × Bool :=
  match t.pending.get? id with
  | none => (t, false)
  | some call => (((t.remove id).modifySlot call.slot (·.close)).countCancelled, true)

/-- The ids of the calls that have expired, as a sweep collects them. -/
def expiredIds (t : Table) (now : Nat) : List UInt64 :=
  (t.pending.filter fun entry => entry.2.isExpired now).map Prod.fst

/-- Ends the call of an id by its deadline if it has expired by `now`. -/
def removeIfExpired (t : Table) (now : Nat) (id : UInt64) : Table × Bool :=
  match t.pending.get? id with
  | none => (t, false)
  | some call => if call.isExpired now then t.cancel id else (t, false)

/-- Ends the calls among `ids` that have expired; how many. -/
def removeAllExpired (t : Table) (now : Nat) (ids : List UInt64) : Table × Nat :=
  ids.foldl
    (fun acc id =>
      let (t, removed) := acc.1.removeIfExpired now id
      (t, if removed then acc.2 + 1 else acc.2))
    (t, 0)

/-- A sweep: collects the calls that have expired and ends each; how many. -/
def removeExpired (t : Table) (now : Nat) : Table × Nat :=
  t.removeAllExpired now (t.expiredIds now)

/-- The caller of a slot goes away. -/
def dropListener (t : Table) (slot : Nat) : Table :=
  t.modifySlot slot (·.abandon)

/-- Takes the outcome out of a slot, if one is there. -/
def takeOutcome (t : Table) (slot : Nat) : Table × Option Outcome :=
  match t.content slot with
  | .filled outcome => (t.modifySlot slot (·.take), some outcome)
  | _ => (t, none)

end Table

end GatewayClient
