/-
A session with a correlation table alone: calls are entered and ended by hand, and time passes only
when it is told to.
-/
import GatewayClient.Correlation.Table

namespace GatewayClient

/-- What a slot's listening end finds when it looks, if somebody kept it. -/
inductive Receipt where
  | outcome (outcome : Outcome)
  | empty
  | closed
  | noReceiver
deriving DecidableEq

/-- The slots whose listening ends somebody keeps, by the ids of their calls. -/
abbrev Receivers := Dictionary UInt64 Nat

namespace Table

/-- Looks into the slot kept for an id; an outcome is taken out. -/
def receive (t : Table) (receivers : Receivers) (id : UInt64) : Table × Receipt :=
  match receivers.get? id with
  | none => (t, .noReceiver)
  | some slot =>
    match t.content slot with
    | .filled outcome => ((t.takeOutcome slot).1, .outcome outcome)
    | .empty => (t, .empty)
    | .closed => (t, .closed)

end Table

/-- A table, the time, and the listening ends that are kept. -/
structure Trial where
  table : Table
  now : Nat := 0
  receivers : Receivers := []

namespace Trial

/-- Something done with the table. -/
inductive Action where
  | register (method : String) (timeout : Option Nat)
  | resolve (id : UInt64) (outcome : Outcome)
  | cancel (id : UInt64)
  | abandon (id : UInt64)
  | isPending (id : UInt64)
  | receive (id : UInt64)
  | dropReceiver (id : UInt64)
  | sleep (ms : Nat)
  | sweep
  | defaultTimeout
deriving DecidableEq

/-- What an action says. -/
inductive Reply where
  | nothing
  | id (id : UInt64)
  | truth (value : Bool)
  | count (n : Nat)
  | receipt (receipt : Receipt)
deriving DecidableEq

/-- A table that has the first id and the default timeout to use. -/
def start (first : UInt64) (defaultTimeout : Nat) : Trial :=
  { table := { next := first, defaultTimeout := defaultTimeout } }

/-- Does an action. -/
def perform (t : Trial) : Action → Trial × Reply
  | .register method timeout =>
    let (table, id, slot) := t.table.register method timeout t.now
    ({ t with table := table, receivers := t.receivers.put id slot }, .id id)
  | .resolve id outcome =>
    let (table, matched) := t.table.resolve id outcome
    ({ t with table := table }, .truth matched)
  | .cancel id =>
    let (table, found) := t.table.cancel id
    ({ t with table := table }, .truth found)
  | .abandon id =>
    let (table, found) := t.table.abandon id
    ({ t with table := table }, .truth found)
  | .isPending id => (t, .truth (t.table.isPending id))
  | .receive id =>
    let (table, receipt) := t.table.receive t.receivers id
    ({ t with table := table }, .receipt receipt)
  | .dropReceiver id =>
    match t.receivers.get? id with
    | none => (t, .truth false)
    | some slot =>
      ({ t with table := t.table.dropListener slot, receivers := t.receivers.erase id },
        .truth true)
  | .sleep ms => ({ t with now := t.now + ms }, .nothing)
  | .sweep =>
    let (table, removed) := t.table.removeExpired t.now
    ({ t with table := table }, .count removed)
  | .defaultTimeout => (t, .count t.table.defaultTimeout)

end Trial

end GatewayClient
