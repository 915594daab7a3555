/-
Outcomes for different ids do not meet.  Giving one takes away an entry, changes a slot that no
other entry has, and counts one; so of two for different ids either may be given first, and to each
it makes no difference whether the other has been.
-/
import GatewayClient.Proofs.Correlation.Guarded
import GatewayClient.Proofs.Correlation.Ledger

namespace GatewayClient

namespace Table

variable {t : Table} {id other : UInt64}

/-- Whether an id has an entry whose caller listens. -/
def hears (t : Table) (id : UInt64) : Bool :=
  (t.pending.get? id).any fun call => t.isListening call.slot

/-- An outcome is counted by whether it has been heard, and that is what is told of it. -/
theorem resolve_eq (t : Table) (id : UInt64) (outcome : Outcome) :
    t.resolve id outcome =
      ({ t.conclude id (·.fill outcome) with
        tally := t.tally.credit 1 (if t.hears id then .resolved else .discarded) },
        t.hears id) := by
  cases hget : t.pending.get? id with
  | none =>
      rw [resolve, hears, conclude_of_none hget, hget]
      rfl
  | some call =>
      rw [resolve, hears, conclude_of_some hget, hget]
      cases hlistening : t.isListening call.slot <;> simp [hlistening] <;> rfl

/-- Whether an outcome would be heard does not depend on the entries of other ids. -/
theorem hears_conclude (hne : id ≠ other) {change : Slot → Slot}
    (hchange : ∀ s, (change s).listening = s.listening) :
    (t.conclude id change).hears other = t.hears other := by
  simp only [hears, get?_conclude, if_neg hne, isListening_eq, listening_conclude t id hchange]

theorem hears_resolve (hne : id ≠ other) (outcome : Outcome) :
    (t.resolve id outcome).1.hears other = t.hears other := by
  rw [resolve_eq]
  exact hears_conclude hne (Slot.listening_fill · outcome)

/-- Entries of different ids can be removed in either order. -/
theorem Guarded.conclude_comm (h : t.Guarded) (hne : id ≠ other) (change change' : Slot → Slot) :
    (t.conclude id change).conclude other change' =
      (t.conclude other change').conclude id change := by
  have hother : (t.conclude id change).pending.get? other = t.pending.get? other := by
    rw [get?_conclude, if_neg hne]
  have hid : (t.conclude other change').pending.get? id = t.pending.get? id := by
    rw [get?_conclude, if_neg hne.symm]
  cases hget : t.pending.get? id with
  | none => rw [conclude_of_none hget, conclude_of_none (hid.trans hget)]
  | some call =>
      cases hget' : t.pending.get? other with
      | none => rw [conclude_of_none hget', conclude_of_none (hother.trans hget')]
      | some call' =>
          have hslot : call.slot ≠ call'.slot :=
            fun heq => hne (h.apart id other call call' hget hget' heq)
          rw [conclude_of_some (hother.trans hget'), conclude_of_some (hid.trans hget),
            conclude_of_some hget, conclude_of_some hget']
          simp only [remove, modifySlot]
          rw [Dictionary.erase_comm, List.modify_modify_ne _ _ _ hslot]

theorem conclude_setTally (t : Table) (tally : Tally) (id : UInt64) (change : Slot → Slot) :
    Table.conclude { t with tally := tally } id change =
      { t.conclude id change with tally := tally } := by
  rw [conclude, conclude]
  cases t.pending.get? id <;> rfl

/-- Of two outcomes for different ids either may be given first. -/
theorem Guarded.resolve_comm (h : t.Guarded) (hne : id ≠ other) (outcome outcome' : Outcome) :
    ((t.resolve id outcome).1.resolve other outcome').1 =
      ((t.resolve other outcome').1.resolve id outcome).1 := by
  have hother := hears_resolve (t := t) hne outcome
  have hid := hears_resolve (t := t) hne.symm outcome'
  rw [resolve_eq (t.resolve id outcome).1, resolve_eq (t.resolve other outcome').1, hother, hid,
    resolve_eq t id, resolve_eq t other]
  simp only [conclude_setTally]
  rw [h.conclude_comm hne, Tally.credit_comm]

end Table

end GatewayClient
