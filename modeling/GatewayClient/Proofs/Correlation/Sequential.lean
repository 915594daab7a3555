/-
Tables that have not run out of ids.  Until then ids are drawn in order, so the id of a call and the
number of its slot say the same; and an operation on one call leaves the slots of the others alone.
-/
import GatewayClient.Proofs.Correlation.Table

namespace GatewayClient

namespace Table

/-- The id that is drawn for a slot. -/
def slotId (slot : Nat) : UInt64 :=
  UInt64.ofNat (slot + 1)

theorem slotId_inj {slot other : Nat} (hslot : slot + 1 < UInt64.size)
    (hother : other + 1 < UInt64.size) (heq : slotId slot = slotId other) : slot = other := by
  have hnats := congrArg UInt64.toNat heq
  rw [slotId, slotId, UInt64.toNat_ofNat_of_lt' hslot, UInt64.toNat_ofNat_of_lt' hother] at hnats
  exact Nat.succ_inj.mp hnats

theorem freshId_of_not_mem {taken : List UInt64} {candidate : UInt64}
    (hfree : candidate ∉ taken) (more : Nat) : freshId taken candidate more = candidate := by
  cases more with
  | zero => rfl
  | succ more => rw [freshId, if_neg hfree]

/-- Every id was drawn for the slot of its entry, and the next one is that of the next slot. -/
structure Sequential (t : Table) : Prop where
  wellFormed : t.WellFormed
  next_eq : t.next = slotId t.slots.length
  id_eq : ∀ id call, t.pending.get? id = some call → id = slotId call.slot

namespace Sequential

variable {t : Table}

/-- The next id is not in use. -/
theorem get?_next (h : t.Sequential) (hroom : t.slots.length + 1 < UInt64.size) :
    t.pending.get? t.next = none := by
  apply Option.eq_none_iff_forall_ne_some.mpr
  intro call hget
  have hmade := h.wellFormed.slot_made _ call hget
  have heq := slotId_inj hroom (by omega) (h.next_eq.symm.trans (h.id_eq _ call hget))
  omega

theorem newId_eq (h : t.Sequential) (hroom : t.slots.length + 1 < UInt64.size) :
    t.newId = slotId t.slots.length := by
  rw [newId, freshId_of_not_mem, h.next_eq]
  exact (Dictionary.get?_eq_none _ _).mp (h.get?_next hroom)

/-- A slot that is empty has an entry, under the id that was drawn for it. -/
theorem get?_of_empty (h : t.Sequential) {slot : Nat} (hempty : (t.slotAt slot).content = .empty) :
    ∃ call, t.pending.get? (slotId slot) = some call ∧ call.slot = slot := by
  obtain ⟨id, call, hget, hslot⟩ := (h.wellFormed.empty_iff slot).mp hempty
  refine ⟨call, ?_, hslot⟩
  rw [← hslot, ← h.id_eq id call hget, hget]

/-- Removing the entry of an id changes the slot that the id was drawn for, if that is still empty,
and no other. -/
theorem slotAt_conclude (h : t.Sequential) (hroom : t.slots.length < UInt64.size) {slot : Nat}
    (hslot : slot < t.slots.length) (id : UInt64) (change : Slot → Slot) :
    (t.conclude id change).slotAt slot =
      if id = slotId slot ∧ (t.slotAt slot).content = .empty then change (t.slotAt slot)
      else t.slotAt slot := by
  cases hget : t.pending.get? id with
  | none =>
      rw [conclude_of_none hget, if_neg]
      rintro ⟨rfl, hempty⟩
      obtain ⟨call, hcall, -⟩ := h.get?_of_empty hempty
      rw [hget] at hcall
      cases hcall
  | some call =>
      have hmade := h.wellFormed.slot_made id call hget
      have hid := h.id_eq id call hget
      by_cases heq : call.slot = slot
      · subst heq
        have hempty := (h.wellFormed.empty_iff call.slot).mpr ⟨id, call, hget, rfl⟩
        rw [slotAt_conclude_self hget hmade, if_pos ⟨hid, hempty⟩]
      · rw [slotAt_conclude_of_ne, if_neg]
        · rintro ⟨hsame, -⟩
          exact heq (slotId_inj (by omega) (by omega) (hid.symm.trans hsame))
        · rintro call' hget'
          rw [hget] at hget'
          cases hget'
          exact heq

/-- Operations that make no slot, draw no id and enter no call. -/
theorem of_fewer {t' : Table} (h : t.Sequential) (hwell : t'.WellFormed)
    (hnext : t'.next = t.next) (hslots : t'.slots.length = t.slots.length)
    (hentries : ∀ id call, t'.pending.get? id = some call → t.pending.get? id = some call) :
    t'.Sequential where
  wellFormed := hwell
  next_eq := by rw [hnext, hslots, h.next_eq]
  id_eq := fun id call hget => h.id_eq id call (hentries id call hget)

theorem of_new (hpending : t.pending = []) (hslots : t.slots = []) (hnext : t.next = 1) :
    t.Sequential where
  wellFormed := .of_new hpending hslots
  next_eq := by
    rw [hnext, hslots]
    rfl
  id_eq := by simp [hpending]

theorem register (h : t.Sequential) (method : String) (timeout : Option Nat) (now : Nat)
    (hroom : t.slots.length + 1 < UInt64.size) : (t.register method timeout now).1.Sequential := by
  have hid := h.newId_eq hroom
  have hlength : (t.register method timeout now).1.slots.length = t.slots.length + 1 := by
    rw [Table.register, List.length_append, List.length_singleton]
  refine ⟨h.wellFormed.register method timeout now ?_, ?_, ?_⟩
  · rw [hid, ← h.next_eq]
    exact h.get?_next hroom
  · have hnext : (t.register method timeout now).1.next = t.newId + 1 := rfl
    rw [hlength, hnext, hid]
    exact (UInt64.ofNat_add (t.slots.length + 1) 1).symm
  · intro id call hget
    rw [get?_register] at hget
    split at hget
    · next heq =>
        cases hget
        rw [← heq, hid]
    · exact h.id_eq id call hget

theorem conclude (h : t.Sequential) (id : UInt64) {change : Slot → Slot}
    (hchange : ∀ s, (change s).content ≠ .empty) (tally : Tally) :
    Sequential { t.conclude id change with tally := tally } := by
  refine h.of_fewer ((h.wellFormed.conclude id hchange).withTally tally) (next_conclude t id change)
    (slots_length_conclude t id change) ?_
  intro other call hget
  have hentry := (get?_conclude t id other change).symm.trans hget
  split at hentry
  · cases hentry
  · exact hentry

theorem modifySlot (h : t.Sequential) {slot : Nat} {change : Slot → Slot}
    (hchange : (change (t.slotAt slot)).content = .empty ↔ (t.slotAt slot).content = .empty) :
    (t.modifySlot slot change).Sequential :=
  h.of_fewer (h.wellFormed.modifySlot hchange) rfl (slots_length_modifySlot t slot change)
    fun _ _ hget => hget

end Sequential

/-- `t'` is `t` after operations on the call of one slot: no other slot is changed. -/
structure Touches (t t' : Table) (slot : Nat) : Prop where
  sequential : t'.Sequential
  length : t'.slots.length = t.slots.length
  others : ∀ other < t.slots.length, other ≠ slot → t'.slotAt other = t.slotAt other

namespace Touches

variable {t t' t'' : Table} {slot : Nat}

theorem refl (h : t.Sequential) (slot : Nat) : Touches t t slot :=
  ⟨h, rfl, fun _ _ _ => rfl⟩

theorem trans (h : Touches t t' slot) (h' : Touches t' t'' slot) : Touches t t'' slot where
  sequential := h'.sequential
  length := h'.length.trans h.length
  others := fun other hother hne =>
    (h'.others other (h.length ▸ hother) hne).trans (h.others other hother hne)

theorem conclude (h : t.Sequential) (hroom : t.slots.length < UInt64.size)
    (hslot : slot < t.slots.length) {change : Slot → Slot}
    (hchange : ∀ s, (change s).content ≠ .empty) (tally : Tally) :
    Touches t { t.conclude (slotId slot) change with tally := tally } slot where
  sequential := h.conclude (slotId slot) hchange tally
  length := slots_length_conclude t (slotId slot) change
  others := by
    intro other hother hne
    refine (h.slotAt_conclude hroom hother (slotId slot) change).trans (if_neg ?_)
    rintro ⟨heq, -⟩
    exact hne (slotId_inj (by omega) (by omega) heq).symm

theorem modifySlot (h : t.Sequential) {change : Slot → Slot}
    (hchange : (change (t.slotAt slot)).content = .empty ↔ (t.slotAt slot).content = .empty) :
    Touches t (t.modifySlot slot change) slot where
  sequential := h.modifySlot hchange
  length := slots_length_modifySlot t slot change
  others := fun _ _ hne => slotAt_modifySlot_of_ne t change (Ne.symm hne)

theorem cancel (h : t.Sequential) (hroom : t.slots.length < UInt64.size)
    (hslot : slot < t.slots.length) : Touches t (t.cancel (slotId slot)).1 slot := by
  obtain ⟨tally, heq⟩ := cancel_eq_conclude t (slotId slot)
  rw [heq]
  exact conclude h hroom hslot (Slot.content_fill_ne_empty · _) tally

theorem abandon (h : t.Sequential) (hroom : t.slots.length < UInt64.size)
    (hslot : slot < t.slots.length) : Touches t (t.abandon (slotId slot)).1 slot := by
  obtain ⟨tally, heq⟩ := abandon_eq_conclude t (slotId slot)
  rw [heq]
  exact conclude h hroom hslot Slot.content_close_ne_empty tally

theorem dropListener (h : t.Sequential) (slot : Nat) : Touches t (t.dropListener slot) slot :=
  modifySlot h Iff.rfl

theorem takeOutcome (h : t.Sequential) {outcome : Outcome}
    (hcontent : t.content slot = .filled outcome) : Touches t (t.takeOutcome slot).1 slot := by
  rw [Table.takeOutcome, hcontent]
  rw [content_eq] at hcontent
  exact modifySlot h (iff_of_false (by simp [Slot.take]) (by simp [hcontent]))

theorem leave (h : t.Sequential) (hroom : t.slots.length < UInt64.size)
    (hslot : slot < t.slots.length) : Touches t (t.leave (slotId slot) slot) slot := by
  have habandon := abandon h hroom hslot
  exact habandon.trans (dropListener habandon.sequential slot)

end Touches

/-- `t'` is `t` after outcomes have been given to some slots.  A slot gets one only if it is empty,
and nobody ceases to listen. -/
structure Gives (t t' : Table) : Prop where
  sequential : t'.Sequential
  length : t'.slots.length = t.slots.length
  slots : ∀ slot < t.slots.length, t'.slotAt slot = t.slotAt slot ∨
    (t.slotAt slot).content = .empty ∧ ∃ outcome, t'.slotAt slot = (t.slotAt slot).fill outcome

namespace Gives

variable {t : Table}

theorem refl (h : t.Sequential) : Gives t t :=
  ⟨h, rfl, fun _ _ => Or.inl rfl⟩

theorem fill (h : t.Sequential) (hroom : t.slots.length < UInt64.size) (id : UInt64)
    (outcome : Outcome) (tally : Tally) :
    Gives t { t.conclude id (·.fill outcome) with tally := tally } where
  sequential := h.conclude id (Slot.content_fill_ne_empty · outcome) tally
  length := slots_length_conclude t id _
  slots := by
    intro slot hslot
    have hafter := h.slotAt_conclude hroom hslot id (·.fill outcome)
    split at hafter
    · next hcond => exact Or.inr ⟨hcond.2, outcome, hafter⟩
    · exact Or.inl hafter

theorem resolve (h : t.Sequential) (hroom : t.slots.length < UInt64.size) (id : UInt64)
    (outcome : Outcome) : Gives t (t.resolve id outcome).1 := by
  obtain ⟨tally, heq⟩ := resolve_eq_conclude t id outcome
  rw [heq]
  exact fill h hroom id outcome tally

theorem removeIfExpired (h : t.Sequential) (hroom : t.slots.length < UInt64.size) (now : Nat)
    (id : UInt64) : Gives t (t.removeIfExpired now id).1 := by
  cases hexpired : t.hasExpired now id with
  | true =>
      obtain ⟨tally, heq⟩ := cancel_eq_conclude t id
      rw [removeIfExpired_of_expired hexpired, heq]
      exact fill h hroom id _ tally
  | false =>
      rw [removeIfExpired_of_not_expired hexpired]
      exact refl h

end Gives

/-- A reply fills the slot that its id was drawn for, if that is empty. -/
theorem Sequential.slotAt_resolve {t : Table} (h : t.Sequential)
    (hroom : t.slots.length < UInt64.size) {slot : Nat} (hslot : slot < t.slots.length)
    (id : UInt64) (outcome : Outcome) :
    (t.resolve id outcome).1.slotAt slot =
      if id = slotId slot ∧ (t.slotAt slot).content = .empty then (t.slotAt slot).fill outcome
      else t.slotAt slot := by
  rw [Table.slotAt_resolve]
  exact h.slotAt_conclude hroom hslot id _

/-- A sweep gives a timeout to the slot of an expired call, if that is empty. -/
theorem Sequential.slotAt_removeIfExpired {t : Table} (h : t.Sequential)
    (hroom : t.slots.length < UInt64.size) {slot : Nat} (hslot : slot < t.slots.length) (now : Nat)
    (id : UInt64) :
    (t.removeIfExpired now id).1.slotAt slot =
      if (id = slotId slot ∧ (t.slotAt slot).content = .empty) ∧ t.hasExpired now id = true then
        (t.slotAt slot).fill (.error .timeout)
      else t.slotAt slot := by
  cases hexpired : t.hasExpired now id with
  | true =>
      rw [removeIfExpired_of_expired hexpired, slotAt_cancel]
      simpa using h.slotAt_conclude hroom hslot id _
  | false =>
      rw [removeIfExpired_of_not_expired hexpired]
      simp

end Table

end GatewayClient
