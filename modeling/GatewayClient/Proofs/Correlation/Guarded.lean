/-
Tables whatever ids they have drawn.  Even when the ids have gone round, every entry has a slot of
its own that is empty; so what is in a slot stays there until somebody takes it out.
-/
import GatewayClient.Proofs.Correlation.Table

namespace GatewayClient

namespace Slot

theorem listening_fill (s : Slot) (outcome : Outcome) :
    (s.fill outcome).listening = s.listening := by
  rw [fill]
  split <;> rfl

end Slot

namespace Table

/-- Every entry has a slot of its own, and nothing is in it yet. -/
structure Guarded (t : Table) : Prop where
  made : ∀ id call, t.pending.get? id = some call → call.slot < t.slots.length
  apart : ∀ id other call call', t.pending.get? id = some call →
    t.pending.get? other = some call' → call.slot = call'.slot → id = other
  empty : ∀ id call, t.pending.get? id = some call → (t.slotAt call.slot).content = .empty

/-- Whether somebody listens to a slot does not change with its content. -/
theorem listening_modifySlot (t : Table) {slot : Nat} {change : Slot → Slot}
    (hchange : ∀ s, (change s).listening = s.listening) (other : Nat) :
    ((t.modifySlot slot change).slotAt other).listening = (t.slotAt other).listening := by
  rw [slotAt, slotAt, modifySlot, List.getElem?_modify]
  cases t.slots[other]? with
  | none => rfl
  | some s =>
      by_cases heq : slot = other
      · simp [heq, hchange]
      · simp [heq]

theorem listening_conclude (t : Table) (id : UInt64) {change : Slot → Slot}
    (hchange : ∀ s, (change s).listening = s.listening) (slot : Nat) :
    ((t.conclude id change).slotAt slot).listening = (t.slotAt slot).listening := by
  rw [conclude]
  split
  · rfl
  · exact listening_modifySlot (t.remove id) hchange slot

theorem listening_resolve (t : Table) (id : UInt64) (outcome : Outcome) (slot : Nat) :
    ((t.resolve id outcome).1.slotAt slot).listening = (t.slotAt slot).listening := by
  rw [slotAt_resolve]
  exact listening_conclude t id (Slot.listening_fill · _) slot

theorem listening_cancel (t : Table) (id : UInt64) (slot : Nat) :
    ((t.cancel id).1.slotAt slot).listening = (t.slotAt slot).listening := by
  rw [slotAt_cancel]
  exact listening_conclude t id (Slot.listening_fill · _) slot

theorem listening_abandon (t : Table) (id : UInt64) (slot : Nat) :
    ((t.abandon id).1.slotAt slot).listening = (t.slotAt slot).listening := by
  have hclose : ∀ s : Slot, s.close.listening = s.listening := fun _ => rfl
  rw [slotAt_abandon]
  exact listening_conclude t id hclose slot

theorem listening_takeOutcome (t : Table) (slot other : Nat) :
    ((t.takeOutcome slot).1.slotAt other).listening = (t.slotAt other).listening := by
  have htake : ∀ s : Slot, s.take.listening = s.listening := fun _ => rfl
  rw [takeOutcome]
  split
  · exact listening_modifySlot t htake other
  · rfl

theorem listening_removeIfExpired (t : Table) (now : Nat) (id : UInt64) (slot : Nat) :
    ((t.removeIfExpired now id).1.slotAt slot).listening = (t.slotAt slot).listening := by
  rw [removeIfExpired_eq]
  split
  · exact listening_cancel t id slot
  · rfl

namespace Guarded

variable {t t' : Table} {slot : Nat}

theorem of_new (hpending : t.pending = []) : t.Guarded where
  made := by simp [hpending]
  apart := by simp [hpending]
  empty := by simp [hpending]

/-- A table with fewer entries, whose slots are as they were. -/
theorem of_fewer (h : t.Guarded) (hlength : t.slots.length ≤ t'.slots.length)
    (hfewer : ∀ id call, t'.pending.get? id = some call → t.pending.get? id = some call ∧
      (t'.slotAt call.slot).content = (t.slotAt call.slot).content) : t'.Guarded where
  made := by
    intro id call hget
    exact Nat.lt_of_lt_of_le (h.made id call (hfewer id call hget).1) hlength
  apart := by
    intro id other call call' hget hget'
    exact h.apart id other call call' (hfewer id call hget).1 (hfewer other call' hget').1
  empty := by
    intro id call hget
    obtain ⟨hold, hsame⟩ := hfewer id call hget
    rw [hsame, h.empty id call hold]

/-- What is in a slot stays when an entry is removed. -/
theorem slotAt_conclude (h : t.Guarded) (hcontent : (t.slotAt slot).content ≠ .empty) (id : UInt64)
    (change : Slot → Slot) : (t.conclude id change).slotAt slot = t.slotAt slot := by
  apply slotAt_conclude_of_ne
  rintro call hget rfl
  exact hcontent (h.empty id call hget)

theorem slotAt_removeIfExpired (h : t.Guarded) (hcontent : (t.slotAt slot).content ≠ .empty)
    (now : Nat) (id : UInt64) : (t.removeIfExpired now id).1.slotAt slot = t.slotAt slot := by
  apply slotAt_removeIfExpired_of_ne
  rintro call hget rfl
  exact hcontent (h.empty id call hget)

theorem conclude (h : t.Guarded) (id : UInt64) (change : Slot → Slot) :
    (t.conclude id change).Guarded := by
  apply h.of_fewer (Nat.le_of_eq (slots_length_conclude t id change).symm)
  intro other call hget
  rw [get?_conclude] at hget
  split at hget
  · cases hget
  · next hne =>
      refine ⟨hget, congrArg Slot.content (slotAt_conclude_of_ne change ?_)⟩
      intro call' hget' heq
      exact hne (h.apart id other call' call hget' hget heq)

theorem withTally (h : t.Guarded) (tally : Tally) : Guarded { t with tally := tally } :=
  ⟨h.made, h.apart, h.empty⟩

theorem resolve (h : t.Guarded) (id : UInt64) (outcome : Outcome) :
    (t.resolve id outcome).1.Guarded := by
  obtain ⟨tally, heq⟩ := resolve_eq_conclude t id outcome
  rw [heq]
  exact (h.conclude id _).withTally tally

theorem cancel (h : t.Guarded) (id : UInt64) : (t.cancel id).1.Guarded := by
  obtain ⟨tally, heq⟩ := cancel_eq_conclude t id
  rw [heq]
  exact (h.conclude id _).withTally tally

theorem abandon (h : t.Guarded) (id : UInt64) : (t.abandon id).1.Guarded := by
  obtain ⟨tally, heq⟩ := abandon_eq_conclude t id
  rw [heq]
  exact (h.conclude id _).withTally tally

theorem removeIfExpired (h : t.Guarded) (now : Nat) (id : UInt64) :
    (t.removeIfExpired now id).1.Guarded := by
  rw [removeIfExpired_eq]
  split
  · exact h.cancel id
  · exact h

theorem dropListener (h : t.Guarded) (slot : Nat) : (t.dropListener slot).Guarded := by
  apply h.of_fewer (Nat.le_of_eq (slots_length_modifySlot t slot _).symm)
  intro id call hget
  refine ⟨hget, ?_⟩
  rw [slotAt_modifySlot t slot call.slot _ (h.made id call hget)]
  split <;> rfl

theorem takeOutcome (h : t.Guarded) (slot : Nat) : (t.takeOutcome slot).1.Guarded := by
  apply h.of_fewer (Nat.le_of_eq (slots_length_takeOutcome t slot).symm)
  intro id call hget
  rw [pending_takeOutcome] at hget
  refine ⟨hget, ?_⟩
  rw [Table.takeOutcome]
  split
  · next hfilled =>
      have hne : slot ≠ call.slot := by
        rintro rfl
        rw [content_eq, h.empty id call hget] at hfilled
        cases hfilled
      rw [slotAt_modifySlot_of_ne t _ hne]
  · rfl

theorem leave (h : t.Guarded) (id : UInt64) (slot : Nat) : (t.leave id slot).Guarded :=
  (h.abandon id).dropListener slot

/-- A call that enters gets a new slot, whatever its id. -/
theorem register (h : t.Guarded) (method : String) (timeout : Option Nat) (now : Nat) :
    (t.register method timeout now).1.Guarded := by
  have hlength : (t.register method timeout now).1.slots.length = t.slots.length + 1 := by
    rw [Table.register, List.length_append, List.length_singleton]
  have hold : ∀ {id call}, t.pending.get? id = some call → call.slot ≠ t.slots.length :=
    fun hget => Nat.ne_of_lt (h.made _ _ hget)
  refine ⟨?_, ?_, ?_⟩
  · intro id call hget
    rw [get?_register] at hget
    rw [hlength]
    split at hget
    · cases hget
      exact Nat.lt_succ_self _
    · exact Nat.lt_succ_of_lt (h.made id call hget)
  · intro id other call call' hget hget' heq
    rw [get?_register] at hget hget'
    split at hget <;> split at hget'
    · next hid hother => exact hid.symm.trans hother
    · cases hget
      exact absurd heq.symm (hold hget')
    · cases hget'
      exact absurd heq (hold hget)
    · exact h.apart id other call call' hget hget' heq
  · intro id call hget
    rw [get?_register] at hget
    rw [slotAt_register]
    split at hget
    · cases hget
      rw [if_pos rfl]
      rfl
    · rw [if_neg (hold hget)]
      exact h.empty id call hget

/-- A reply to a call that somebody listens for is put into its slot. -/
theorem content_resolve (h : t.Guarded) {id : UInt64} {call : PendingCall}
    (hget : t.pending.get? id = some call) (hlistening : (t.slotAt call.slot).listening = true)
    (outcome : Outcome) :
    (t.resolve id outcome).1.content call.slot = .filled outcome := by
  rw [content_eq, Table.slotAt_resolve, slotAt_conclude_self hget (h.made id call hget),
    Slot.content_fill, if_pos hlistening]

end Guarded

end Table

end GatewayClient
