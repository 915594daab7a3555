/-
What the operations of the correlation table do to its entries and slots.  Three of them remove an
entry and change its slot, and differ only in the change and in what they count; they are treated as
one.  A table is well formed if its ids are distinct, no two entries share a slot, and a slot is
empty as long as it belongs to an entry and no longer.
-/
import GatewayClient.Correlation.Table
import GatewayClient.Proofs.Dictionary
import Mathlib.Data.Finset.Card

namespace GatewayClient

namespace Slot

theorem content_fill (s : Slot) (outcome : Outcome) :
    (s.fill outcome).content = if s.listening then .filled outcome else .closed := by
  rw [fill]
  split <;> rfl

theorem content_fill_ne_empty (s : Slot) (outcome : Outcome) :
    (s.fill outcome).content ≠ .empty := by
  rw [content_fill]
  split <;> simp

theorem content_close_ne_empty (s : Slot) : s.close.content ≠ .empty := by
  simp [close]

end Slot

/-- A call that has expired has had its timeout. -/
theorem PendingCall.lt_of_isExpired {p : PendingCall} {now : Nat} (h : p.isExpired now = true) :
    p.registeredAt + p.timeout < now := by
  rw [isExpired, decide_eq_true_iff] at h
  omega

namespace Table

/-- Every candidate before the one found is taken, and the one found is free unless the candidates
have run out. -/
theorem freshId_eq_add (taken : List UInt64) (candidate : UInt64) (more : Nat) :
    ∃ k ≤ more, freshId taken candidate more = candidate + UInt64.ofNat k ∧
      (∀ j < k, candidate + UInt64.ofNat j ∈ taken) ∧
      (k < more → freshId taken candidate more ∉ taken) := by
  induction more generalizing candidate with
  | zero => exact ⟨0, Nat.le_refl 0, by simp [freshId], by simp, by simp⟩
  | succ more ih =>
      by_cases hmem : candidate ∈ taken
      · obtain ⟨k, hk, hfound, htaken, hfree⟩ := ih (candidate + 1)
        have hsucc : ∀ j : Nat,
            candidate + 1 + UInt64.ofNat j = candidate + UInt64.ofNat (j + 1) := by
          intro j
          rw [UInt64.ofNat_add, UInt64.add_assoc, UInt64.add_comm 1]
          rfl
        refine ⟨k + 1, Nat.succ_le_succ hk, ?_, ?_, ?_⟩
        · rw [freshId, if_pos hmem, hfound, hsucc]
        · intro j hj
          cases j with
          | zero => simpa using hmem
          | succ j =>
              rw [← hsucc]
              exact htaken j (Nat.lt_of_succ_lt_succ hj)
        · intro hlt
          rw [freshId, if_pos hmem]
          exact hfree (Nat.lt_of_succ_lt_succ hlt)
      · refine ⟨0, Nat.zero_le _, by simp [freshId, hmem], by simp, ?_⟩
        intro _
        simp [freshId, hmem]

theorem add_ofNat_inj {candidate : UInt64} {i j : Nat} (hi : i < UInt64.size) (hj : j < UInt64.size)
    (heq : candidate + UInt64.ofNat i = candidate + UInt64.ofNat j) : i = j := by
  have hwords : UInt64.ofNat i = UInt64.ofNat j := (UInt64.add_right_inj candidate).mp heq
  have hnats := congrArg UInt64.toNat hwords
  rwa [UInt64.toNat_ofNat_of_lt' hi, UInt64.toNat_ofNat_of_lt' hj] at hnats

/-- While not every word is taken, the id found is free: otherwise one more ids than are taken would
be among them. -/
theorem freshId_not_mem_of_card {taken : List UInt64} (candidate : UInt64) {more : Nat}
    (hroom : taken.toFinset.card < UInt64.size) (hmore : taken.toFinset.card ≤ more) :
    freshId taken candidate more ∉ taken := by
  obtain ⟨k, hk, hfound, htaken, hfree⟩ := freshId_eq_add taken candidate more
  rcases Nat.lt_or_eq_of_le hk with hlt | hlast
  · exact hfree hlt
  · intro hmem
    let candidates := (Finset.range (taken.toFinset.card + 1)).image
      fun j => candidate + UInt64.ofNat j
    have hcard : candidates.card = taken.toFinset.card + 1 := by
      rw [Finset.card_image_of_injOn, Finset.card_range]
      intro i hi j hj heq
      rw [Finset.mem_coe, Finset.mem_range] at hi hj
      exact add_ofNat_inj (by omega) (by omega) heq
    have hsubset : candidates ⊆ taken.toFinset := by
      intro id hid
      obtain ⟨j, hj, rfl⟩ := Finset.mem_image.mp hid
      rw [List.mem_toFinset]
      rcases Nat.lt_or_eq_of_le (Nat.le_of_lt_succ (Finset.mem_range.mp hj)) with hlt | rfl
      · exact htaken j (by omega)
      · rcases Nat.lt_or_eq_of_le hmore with hlt | hlast'
        · exact htaken _ (by omega)
        · rw [hlast', ← hlast, ← hfound]
          exact hmem
    have hle := Finset.card_le_card hsubset
    omega

theorem freshId_not_mem {taken : List UInt64} (candidate : UInt64)
    (hroom : taken.length < UInt64.size) : freshId taken candidate taken.length ∉ taken :=
  freshId_not_mem_of_card candidate (Nat.lt_of_le_of_lt taken.toFinset_card_le hroom)
    taken.toFinset_card_le

/-- The slot of a number; one never made has nothing to give and nobody listens to it. -/
def slotAt (t : Table) (slot : Nat) : Slot :=
  (t.slots[slot]?).getD ⟨.closed, false⟩

theorem content_eq (t : Table) (slot : Nat) : t.content slot = (t.slotAt slot).content := by
  rw [content, slotAt]
  cases t.slots[slot]? <;> rfl

theorem isListening_eq (t : Table) (slot : Nat) :
    t.isListening slot = (t.slotAt slot).listening := by
  rw [isListening, slotAt]
  cases t.slots[slot]? <;> rfl

theorem slotAt_modifySlot (t : Table) (slot other : Nat) (change : Slot → Slot)
    (hmade : other < t.slots.length) :
    (t.modifySlot slot change).slotAt other =
      if slot = other then change (t.slotAt other) else t.slotAt other := by
  rw [slotAt, modifySlot, List.getElem?_modify, slotAt, List.getElem?_eq_getElem hmade]
  by_cases heq : slot = other <;> simp [heq]

/-- A slot never made stays so. -/
theorem slotAt_of_not_made (t : Table) {slot : Nat} (hslot : t.slots.length ≤ slot) :
    t.slotAt slot = ⟨.closed, false⟩ := by
  rw [slotAt, List.getElem?_eq_none hslot]
  rfl

theorem slotAt_modifySlot_of_ne (t : Table) {slot other : Nat} (change : Slot → Slot)
    (hne : slot ≠ other) : (t.modifySlot slot change).slotAt other = t.slotAt other := by
  rw [slotAt, modifySlot, List.getElem?_modify, slotAt]
  simp [hne]

/-- What is in a slot does not change when its listener goes. -/
theorem content_dropListener (t : Table) (slot other : Nat) :
    ((t.dropListener slot).slotAt other).content = (t.slotAt other).content := by
  rw [dropListener, slotAt, modifySlot, List.getElem?_modify, slotAt]
  cases t.slots[other]? with
  | none => rfl
  | some s => by_cases heq : slot = other <;> simp [heq, Slot.abandon]

@[simp] theorem slots_length_modifySlot (t : Table) (slot : Nat) (change : Slot → Slot) :
    (t.modifySlot slot change).slots.length = t.slots.length := by
  rw [modifySlot, List.length_modify]

@[simp] theorem pending_takeOutcome (t : Table) (slot : Nat) :
    (t.takeOutcome slot).1.pending = t.pending := by
  rw [takeOutcome]
  split <;> rfl

@[simp] theorem tally_takeOutcome (t : Table) (slot : Nat) :
    (t.takeOutcome slot).1.tally = t.tally := by
  rw [takeOutcome]
  split <;> rfl

@[simp] theorem slots_length_takeOutcome (t : Table) (slot : Nat) :
    (t.takeOutcome slot).1.slots.length = t.slots.length := by
  rw [takeOutcome]
  split
  · exact slots_length_modifySlot t slot _
  · rfl

/-- The table without the entry of an id, whose slot has been changed. -/
def conclude (t : Table) (id : UInt64) (change : Slot → Slot) : Table :=
  match t.pending.get? id with
  | none => t
  | some call => (t.remove id).modifySlot call.slot change

theorem conclude_of_none {t : Table} {id : UInt64} (hget : t.pending.get? id = none)
    (change : Slot → Slot) : t.conclude id change = t := by
  rw [conclude, hget]

theorem conclude_of_some {t : Table} {id : UInt64} {call : PendingCall}
    (hget : t.pending.get? id = some call) (change : Slot → Slot) :
    t.conclude id change = (t.remove id).modifySlot call.slot change := by
  rw [conclude, hget]

theorem get?_conclude (t : Table) (id other : UInt64) (change : Slot → Slot) :
    (t.conclude id change).pending.get? other =
      if id = other then none else t.pending.get? other := by
  cases hget : t.pending.get? id with
  | none =>
      rw [conclude_of_none hget]
      split
      · next heq => rw [← heq, hget]
      · rfl
  | some call =>
      rw [conclude_of_some hget]
      exact Dictionary.get?_erase t.pending id other

@[simp] theorem slots_length_conclude (t : Table) (id : UInt64) (change : Slot → Slot) :
    (t.conclude id change).slots.length = t.slots.length := by
  cases hget : t.pending.get? id with
  | none => rw [conclude_of_none hget]
  | some call =>
      rw [conclude_of_some hget, slots_length_modifySlot]
      rfl

@[simp] theorem next_conclude (t : Table) (id : UInt64) (change : Slot → Slot) :
    (t.conclude id change).next = t.next := by
  rw [conclude]
  split <;> rfl

/-- Only the slot of the entry is changed. -/
theorem slotAt_conclude_of_ne {t : Table} {id : UInt64} {slot : Nat} (change : Slot → Slot)
    (hne : ∀ call, t.pending.get? id = some call → call.slot ≠ slot) :
    (t.conclude id change).slotAt slot = t.slotAt slot := by
  cases hget : t.pending.get? id with
  | none => rw [conclude_of_none hget]
  | some call =>
      rw [conclude_of_some hget]
      exact slotAt_modifySlot_of_ne (t.remove id) change (hne call hget)

theorem slotAt_conclude_self {t : Table} {id : UInt64} {call : PendingCall}
    (hget : t.pending.get? id = some call) (hmade : call.slot < t.slots.length)
    (change : Slot → Slot) :
    (t.conclude id change).slotAt call.slot = change (t.slotAt call.slot) := by
  rw [conclude_of_some hget, slotAt_modifySlot (t.remove id) call.slot call.slot change hmade,
    if_pos rfl]
  rfl

/-- An empty slot that has an outcome when an entry has been removed is that of the entry. -/
theorem exists_entry_of_conclude {t : Table} {id : UInt64} {slot : Nat} {change : Slot → Slot}
    {outcome : Outcome}
    (hmade : slot < t.slots.length) (hempty : (t.slotAt slot).content = .empty)
    (hfilled : ((t.conclude id change).slotAt slot).content = .filled outcome) :
    ∃ p, t.pending.get? id = some p ∧ p.slot = slot ∧
      (t.conclude id change).slotAt slot = change (t.slotAt slot) := by
  by_cases hentry : ∃ p, t.pending.get? id = some p ∧ p.slot = slot
  · obtain ⟨p, hget, rfl⟩ := hentry
    exact ⟨p, hget, rfl, slotAt_conclude_self hget hmade change⟩
  · have hsame : (t.conclude id change).slotAt slot = t.slotAt slot := by
      apply slotAt_conclude_of_ne
      exact fun p hget hslot => hentry ⟨p, hget, hslot⟩
    rw [hsame, hempty] at hfilled
    cases hfilled

theorem resolve_eq_conclude (t : Table) (id : UInt64) (outcome : Outcome) :
    ∃ tally, (t.resolve id outcome).1 = { t.conclude id (·.fill outcome) with tally := tally } := by
  cases hget : t.pending.get? id with
  | none =>
      rw [conclude_of_none hget, resolve, hget]
      exact ⟨_, rfl⟩
  | some call =>
      rw [conclude_of_some hget, resolve, hget]
      by_cases hlistening : t.isListening call.slot = true <;> simp only [hlistening] <;>
        exact ⟨_, rfl⟩

theorem cancel_eq_conclude (t : Table) (id : UInt64) :
    ∃ tally,
      (t.cancel id).1 = { t.conclude id (·.fill (.error .timeout)) with tally := tally } := by
  cases hget : t.pending.get? id with
  | none =>
      rw [conclude_of_none hget, cancel, hget]
      exact ⟨_, rfl⟩
  | some call =>
      rw [conclude_of_some hget, cancel, hget]
      exact ⟨_, rfl⟩

theorem abandon_eq_conclude (t : Table) (id : UInt64) :
    ∃ tally, (t.abandon id).1 = { t.conclude id Slot.close with tally := tally } := by
  cases hget : t.pending.get? id with
  | none =>
      rw [conclude_of_none hget, abandon, hget]
      exact ⟨_, rfl⟩
  | some call =>
      rw [conclude_of_some hget, abandon, hget]
      exact ⟨_, rfl⟩

theorem get?_resolve (t : Table) (id other : UInt64) (outcome : Outcome) :
    (t.resolve id outcome).1.pending.get? other =
      if id = other then none else t.pending.get? other := by
  obtain ⟨tally, heq⟩ := resolve_eq_conclude t id outcome
  rw [heq]
  exact get?_conclude t id other _

theorem get?_cancel (t : Table) (id other : UInt64) :
    (t.cancel id).1.pending.get? other = if id = other then none else t.pending.get? other := by
  obtain ⟨tally, heq⟩ := cancel_eq_conclude t id
  rw [heq]
  exact get?_conclude t id other _

theorem get?_abandon (t : Table) (id other : UInt64) :
    (t.abandon id).1.pending.get? other = if id = other then none else t.pending.get? other := by
  obtain ⟨tally, heq⟩ := abandon_eq_conclude t id
  rw [heq]
  exact get?_conclude t id other _

theorem slotAt_resolve (t : Table) (id : UInt64) (outcome : Outcome) (slot : Nat) :
    (t.resolve id outcome).1.slotAt slot = (t.conclude id (·.fill outcome)).slotAt slot := by
  obtain ⟨tally, heq⟩ := resolve_eq_conclude t id outcome
  rw [heq]
  rfl

theorem slotAt_cancel (t : Table) (id : UInt64) (slot : Nat) :
    (t.cancel id).1.slotAt slot = (t.conclude id (·.fill (.error .timeout))).slotAt slot := by
  obtain ⟨tally, heq⟩ := cancel_eq_conclude t id
  rw [heq]
  rfl

theorem slotAt_abandon (t : Table) (id : UInt64) (slot : Nat) :
    (t.abandon id).1.slotAt slot = (t.conclude id Slot.close).slotAt slot := by
  obtain ⟨tally, heq⟩ := abandon_eq_conclude t id
  rw [heq]
  rfl

@[simp] theorem slots_length_resolve (t : Table) (id : UInt64) (outcome : Outcome) :
    (t.resolve id outcome).1.slots.length = t.slots.length := by
  obtain ⟨tally, heq⟩ := resolve_eq_conclude t id outcome
  rw [heq]
  exact slots_length_conclude t id _

@[simp] theorem slots_length_cancel (t : Table) (id : UInt64) :
    (t.cancel id).1.slots.length = t.slots.length := by
  obtain ⟨tally, heq⟩ := cancel_eq_conclude t id
  rw [heq]
  exact slots_length_conclude t id _

@[simp] theorem slots_length_abandon (t : Table) (id : UInt64) :
    (t.abandon id).1.slots.length = t.slots.length := by
  obtain ⟨tally, heq⟩ := abandon_eq_conclude t id
  rw [heq]
  exact slots_length_conclude t id _

/-- A call found expired is cancelled; nothing is done to any other. -/
theorem removeIfExpired_eq (t : Table) (now : Nat) (id : UInt64) :
    t.removeIfExpired now id =
      if (t.pending.get? id).any (·.isExpired now) then t.cancel id else (t, false) := by
  rw [removeIfExpired]
  cases t.pending.get? id <;> rfl

/-- The calls of a list of ids are ended one after the other. -/
theorem removeAllExpired_cons (t : Table) (now : Nat) (id : UInt64) (ids : List UInt64) :
    t.removeAllExpired now (id :: ids) =
      let (rest, removed) := (t.removeIfExpired now id).1.removeAllExpired now ids
      (rest, if (t.removeIfExpired now id).2 then removed + 1 else removed) := by
  have hfold : ∀ (ids : List UInt64) (t : Table) (n : Nat),
      ids.foldl (fun acc id =>
          ((acc.1.removeIfExpired now id).1,
            if (acc.1.removeIfExpired now id).2 then acc.2 + 1 else acc.2)) (t, n) =
        ((t.removeAllExpired now ids).1, n + (t.removeAllExpired now ids).2) := by
    intro ids
    induction ids with
    | nil => intro t n; rfl
    | cons id ids ih =>
        intro t n
        rw [removeAllExpired, List.foldl_cons, List.foldl_cons, ih, ih]
        split <;> simp only [Nat.add_assoc, Nat.zero_add]
  rw [removeAllExpired, List.foldl_cons, hfold]
  split <;> simp only [Nat.add_comm, Nat.zero_add]

/-- The id that the next call gets. -/
def newId (t : Table) : UInt64 :=
  freshId t.pendingIds t.next t.pending.length

theorem newId_not_mem {t : Table} (hroom : t.pendingCount < UInt64.size) :
    t.newId ∉ t.pendingIds := by
  have hlength : t.pendingIds.length = t.pending.length := Dictionary.length_keys _
  rw [newId, ← hlength]
  exact freshId_not_mem t.next (by rw [hlength]; exact hroom)

theorem get?_newId {t : Table} (hroom : t.pendingCount < UInt64.size) :
    t.pending.get? t.newId = none :=
  (Dictionary.get?_eq_none _ _).mpr (newId_not_mem hroom)

theorem get?_register (t : Table) (method : String) (timeout : Option Nat) (now : Nat)
    (other : UInt64) :
    (t.register method timeout now).1.pending.get? other =
      if t.newId = other then
        some ⟨t.slots.length, now, method, timeout.getD t.defaultTimeout⟩
      else t.pending.get? other :=
  Dictionary.get?_put _ _ _ _

theorem slotAt_register (t : Table) (method : String) (timeout : Option Nat) (now slot : Nat) :
    (t.register method timeout now).1.slotAt slot =
      if slot = t.slots.length then .fresh else t.slotAt slot := by
  rw [slotAt, slotAt, register, List.getElem?_append]
  rcases Nat.lt_trichotomy slot t.slots.length with hlt | heq | hgt
  · simp [hlt, Nat.ne_of_lt hlt]
  · simp [heq]
  · have hlast : slot - t.slots.length ≠ 0 := by omega
    simp [Nat.not_lt_of_gt hgt, Nat.ne_of_gt hgt, hlast]

/-- The ids are distinct, every entry has a slot of its own, and the slots that are empty are those
of the entries. -/
structure WellFormed (t : Table) : Prop where
  ids_nodup : t.pendingIds.Nodup
  slot_made : ∀ id call, t.pending.get? id = some call → call.slot < t.slots.length
  slot_inj : ∀ id other call call', t.pending.get? id = some call →
    t.pending.get? other = some call' → call.slot = call'.slot → id = other
  empty_iff : ∀ slot, (t.slotAt slot).content = .empty ↔
    ∃ id call, t.pending.get? id = some call ∧ call.slot = slot

namespace WellFormed

variable {t : Table}

/-- A table with neither entries nor slots is well formed. -/
theorem of_new (hpending : t.pending = []) (hslots : t.slots = []) : t.WellFormed where
  ids_nodup := by simp [pendingIds, Dictionary.keys, hpending]
  slot_made := by simp [hpending]
  slot_inj := by simp [hpending]
  empty_iff := by simp [hpending, slotAt, hslots]

theorem withTally (h : t.WellFormed) (tally : Tally) :
    WellFormed { t with tally := tally } :=
  ⟨h.ids_nodup, h.slot_made, h.slot_inj, h.empty_iff⟩

/-- A slot that is empty or not as before leaves the table well formed. -/
theorem modifySlot (h : t.WellFormed) {slot : Nat} {change : Slot → Slot}
    (hchange : (change (t.slotAt slot)).content = .empty ↔ (t.slotAt slot).content = .empty) :
    (t.modifySlot slot change).WellFormed where
  ids_nodup := h.ids_nodup
  slot_made := by
    intro id call hget
    rw [slots_length_modifySlot]
    exact h.slot_made id call hget
  slot_inj := h.slot_inj
  empty_iff := by
    intro other
    refine Iff.trans ?_ (h.empty_iff other)
    by_cases heq : slot = other
    · subst heq
      rcases Nat.lt_or_ge slot t.slots.length with hmade | hmade
      · rw [slotAt_modifySlot t slot slot change hmade, if_pos rfl]
        exact hchange
      · rw [slotAt_of_not_made t hmade, slotAt_of_not_made]
        rwa [slots_length_modifySlot]
    · rw [slotAt_modifySlot_of_ne t change heq]

/-- Nobody else's slot is that of an entry. -/
theorem slot_ne (h : t.WellFormed) {id other : UInt64} {call call' : PendingCall}
    (hget : t.pending.get? id = some call) (hother : t.pending.get? other = some call')
    (hne : id ≠ other) : call.slot ≠ call'.slot :=
  fun heq => hne (h.slot_inj id other call call' hget hother heq)

/-- Removing an entry and filling or closing its slot leaves the table well formed. -/
theorem conclude (h : t.WellFormed) (id : UInt64) {change : Slot → Slot}
    (hchange : ∀ s, (change s).content ≠ .empty) : (t.conclude id change).WellFormed := by
  cases hid : t.pending.get? id with
  | none => rwa [conclude_of_none hid]
  | some call =>
      refine ⟨?_, ?_, ?_, ?_⟩
      · rw [conclude_of_some hid]
        exact Dictionary.nodup_keys_erase h.ids_nodup id
      · intro other call' hget
        rw [get?_conclude] at hget
        split at hget
        · cases hget
        · rw [slots_length_conclude]
          exact h.slot_made other call' hget
      · intro other other' call' call'' hget hget' heq
        rw [get?_conclude] at hget hget'
        split at hget
        · cases hget
        · split at hget'
          · cases hget'
          · exact h.slot_inj other other' call' call'' hget hget' heq
      · intro slot
        by_cases hslot : call.slot = slot
        · subst hslot
          rw [slotAt_conclude_self hid (h.slot_made id call hid)]
          apply iff_of_false (hchange _)
          rintro ⟨other, call', hget, heq⟩
          rw [get?_conclude] at hget
          split at hget
          · cases hget
          · next hne => exact h.slot_ne hid hget hne heq.symm
        · rw [slotAt_conclude_of_ne change (by rw [hid]; rintro _ ⟨⟩; exact hslot), h.empty_iff]
          constructor
          · rintro ⟨other, call', hget, heq⟩
            refine ⟨other, call', ?_, heq⟩
            have hne : id ≠ other := by
              rintro rfl
              rw [hid] at hget
              cases hget
              exact hslot heq
            rwa [get?_conclude, if_neg hne]
          · rintro ⟨other, call', hget, heq⟩
            rw [get?_conclude] at hget
            split at hget
            · cases hget
            · exact ⟨other, call', hget, heq⟩

/-- Entering a call under a free id leaves the table well formed. -/
theorem register (h : t.WellFormed) (method : String) (timeout : Option Nat) (now : Nat)
    (hfree : t.pending.get? t.newId = none) : (t.register method timeout now).1.WellFormed := by
  have hlength : (t.register method timeout now).1.slots.length = t.slots.length + 1 := by
    rw [Table.register, List.length_append, List.length_singleton]
  have hold : ∀ other call, t.pending.get? other = some call → t.newId ≠ other := by
    rintro other call hget rfl
    rw [hfree] at hget
    cases hget
  refine ⟨Dictionary.nodup_keys_put h.ids_nodup _ _, ?_, ?_, ?_⟩
  · intro id call hget
    rw [get?_register] at hget
    split at hget
    · cases hget
      rw [hlength]
      exact Nat.lt_succ_self _
    · rw [hlength]
      exact Nat.lt_succ_of_lt (h.slot_made id call hget)
  · intro id other call call' hget hget' heq
    rw [get?_register] at hget hget'
    split at hget <;> split at hget'
    · next hid hother => exact hid.symm.trans hother
    · cases hget
      exact absurd (h.slot_made other call' hget') (by rw [← heq]; exact Nat.lt_irrefl _)
    · cases hget'
      exact absurd (h.slot_made id call hget) (by rw [heq]; exact Nat.lt_irrefl _)
    · exact h.slot_inj id other call call' hget hget' heq
  · intro slot
    rw [slotAt_register]
    by_cases hslot : slot = t.slots.length
    · subst hslot
      rw [if_pos rfl]
      exact iff_of_true rfl ⟨t.newId, _, by rw [get?_register, if_pos rfl], rfl⟩
    · rw [if_neg hslot, h.empty_iff]
      constructor
      · rintro ⟨id, call, hget, heq⟩
        exact ⟨id, call, by rw [get?_register, if_neg (hold id call hget)]; exact hget, heq⟩
      · rintro ⟨id, call, hget, heq⟩
        rw [get?_register] at hget
        split at hget
        · cases hget
          exact absurd heq.symm hslot
        · exact ⟨id, call, hget, heq⟩

theorem resolve (h : t.WellFormed) (id : UInt64) (outcome : Outcome) :
    (t.resolve id outcome).1.WellFormed := by
  obtain ⟨tally, heq⟩ := resolve_eq_conclude t id outcome
  rw [heq]
  exact (h.conclude id (Slot.content_fill_ne_empty · outcome)).withTally tally

theorem cancel (h : t.WellFormed) (id : UInt64) : (t.cancel id).1.WellFormed := by
  obtain ⟨tally, heq⟩ := cancel_eq_conclude t id
  rw [heq]
  exact (h.conclude id (Slot.content_fill_ne_empty · _)).withTally tally

theorem abandon (h : t.WellFormed) (id : UInt64) : (t.abandon id).1.WellFormed := by
  obtain ⟨tally, heq⟩ := abandon_eq_conclude t id
  rw [heq]
  exact (h.conclude id Slot.content_close_ne_empty).withTally tally

theorem removeIfExpired (h : t.WellFormed) (now : Nat) (id : UInt64) :
    (t.removeIfExpired now id).1.WellFormed := by
  rw [removeIfExpired_eq]
  split
  · exact h.cancel id
  · exact h

theorem removeAllExpired (h : t.WellFormed) (now : Nat) (ids : List UInt64) :
    (t.removeAllExpired now ids).1.WellFormed := by
  induction ids generalizing t with
  | nil => exact h
  | cons id ids ih =>
      rw [removeAllExpired_cons]
      exact ih (h.removeIfExpired now id)

theorem dropListener (h : t.WellFormed) (slot : Nat) : (t.dropListener slot).WellFormed :=
  h.modifySlot Iff.rfl

theorem takeOutcome (h : t.WellFormed) (slot : Nat) : (t.takeOutcome slot).1.WellFormed := by
  rw [Table.takeOutcome]
  split
  · next hfilled =>
      rw [content_eq] at hfilled
      exact h.modifySlot (iff_of_false (by simp [Slot.take]) (by simp [hfilled]))
  · exact h

end WellFormed

/-- The table without the entry of a call, to whose slot nobody listens any more. -/
def leave (t : Table) (id : UInt64) (slot : Nat) : Table :=
  (t.abandon id).1.dropListener slot

@[simp] theorem slots_length_leave (t : Table) (id : UInt64) (slot : Nat) :
    (t.leave id slot).slots.length = t.slots.length := by
  rw [leave, dropListener, slots_length_modifySlot, slots_length_abandon]

/-- Whether an id has an entry that has expired. -/
def hasExpired (t : Table) (now : Nat) (id : UInt64) : Bool :=
  (t.pending.get? id).any (·.isExpired now)

theorem removeIfExpired_of_expired {t : Table} {now : Nat} {id : UInt64}
    (hexpired : t.hasExpired now id = true) : t.removeIfExpired now id = t.cancel id := by
  rw [removeIfExpired_eq, ← hasExpired, if_pos hexpired]

theorem removeIfExpired_of_not_expired {t : Table} {now : Nat} {id : UInt64}
    (hexpired : t.hasExpired now id = false) : t.removeIfExpired now id = (t, false) := by
  rw [removeIfExpired_eq, ← hasExpired, hexpired]
  rfl

/-- A sweep collects the ids whose entries have expired. -/
theorem mem_expiredIds {t : Table} (h : t.WellFormed) (now : Nat) (id : UInt64) :
    id ∈ t.expiredIds now ↔ t.hasExpired now id = true := by
  rw [expiredIds, List.mem_map, hasExpired]
  constructor
  · rintro ⟨⟨key, call⟩, hmem, rfl⟩
    obtain ⟨hentry, hexpired⟩ := List.mem_filter.mp hmem
    rw [Dictionary.get?_of_mem h.ids_nodup hentry]
    exact hexpired
  · intro hexpired
    obtain ⟨call, hget, hcall⟩ := (Option.any_eq_true _ _).mp hexpired
    exact ⟨(id, call), List.mem_filter.mpr ⟨Dictionary.mem_of_get? hget, hcall⟩, rfl⟩

theorem get?_removeIfExpired_of_ne (t : Table) (now : Nat) {id other : UInt64} (hne : id ≠ other) :
    (t.removeIfExpired now id).1.pending.get? other = t.pending.get? other := by
  cases hexpired : t.hasExpired now id with
  | true => rw [removeIfExpired_of_expired hexpired, get?_cancel, if_neg hne]
  | false => rw [removeIfExpired_of_not_expired hexpired]

@[simp] theorem slots_length_removeIfExpired (t : Table) (now : Nat) (id : UInt64) :
    (t.removeIfExpired now id).1.slots.length = t.slots.length := by
  rw [removeIfExpired_eq]
  split
  · exact slots_length_cancel t id
  · rfl

@[simp] theorem slots_length_removeAllExpired (t : Table) (now : Nat) (ids : List UInt64) :
    (t.removeAllExpired now ids).1.slots.length = t.slots.length := by
  induction ids generalizing t with
  | nil => rfl
  | cons head ids ih =>
      rw [removeAllExpired_cons]
      exact (ih _).trans (slots_length_removeIfExpired t now head)

/-- A sweep through some ids removes those entries among them that have expired. -/
theorem get?_removeAllExpired (t : Table) (now : Nat) (ids : List UInt64) (id : UInt64) :
    (t.removeAllExpired now ids).1.pending.get? id =
      if id ∈ ids ∧ t.hasExpired now id = true then none else t.pending.get? id := by
  induction ids generalizing t with
  | nil => simp [removeAllExpired]
  | cons head ids ih =>
      rw [removeAllExpired_cons]
      change ((t.removeIfExpired now head).1.removeAllExpired now ids).1.pending.get? id = _
      rw [ih]
      by_cases heq : head = id
      · subst heq
        cases hexpired : t.hasExpired now head with
        | true =>
            rw [removeIfExpired_of_expired hexpired, get?_cancel]
            simp
        | false => simp [removeIfExpired_of_not_expired hexpired, hexpired]
      · have hget := get?_removeIfExpired_of_ne t now heq
        have hhas : (t.removeIfExpired now head).1.hasExpired now id = t.hasExpired now id := by
          rw [hasExpired, hget, hasExpired]
        simp [hget, hhas, Ne.symm heq]

/-- A slot that is not that of an expired entry is left alone by a sweep. -/
theorem slotAt_removeIfExpired_of_ne {t : Table} {now slot : Nat} {id : UInt64}
    (hne : ∀ call, t.pending.get? id = some call → call.slot ≠ slot) :
    (t.removeIfExpired now id).1.slotAt slot = t.slotAt slot := by
  cases hexpired : t.hasExpired now id with
  | true => rw [removeIfExpired_of_expired hexpired, slotAt_cancel, slotAt_conclude_of_ne _ hne]
  | false => rw [removeIfExpired_of_not_expired hexpired]

theorem slotAt_removeAllExpired_of_ne {t : Table} {now slot : Nat}
    (hne : ∀ id call, t.pending.get? id = some call → call.slot ≠ slot) (ids : List UInt64) :
    (t.removeAllExpired now ids).1.slotAt slot = t.slotAt slot := by
  induction ids generalizing t with
  | nil => rfl
  | cons head ids ih =>
      rw [removeAllExpired_cons]
      change ((t.removeIfExpired now head).1.removeAllExpired now ids).1.slotAt slot = _
      rw [ih, slotAt_removeIfExpired_of_ne (hne head)]
      intro id call hget
      by_cases heq : head = id
      · subst heq
        cases hexpired : t.hasExpired now head with
        | true =>
            rw [removeIfExpired_of_expired hexpired, get?_cancel, if_pos rfl] at hget
            cases hget
        | false =>
            rw [removeIfExpired_of_not_expired hexpired] at hget
            exact hne head call hget
      · rw [get?_removeIfExpired_of_ne t now heq] at hget
        exact hne id call hget

/-- A sweep gives the calls that it ends a timeout, and the others nothing. -/
theorem slotAt_removeAllExpired {t : Table} (h : t.WellFormed) (now : Nat) (ids : List UInt64)
    {id : UInt64} {call : PendingCall} (hget : t.pending.get? id = some call) :
    (t.removeAllExpired now ids).1.slotAt call.slot =
      if id ∈ ids ∧ t.hasExpired now id = true then
        (t.slotAt call.slot).fill (.error .timeout)
      else t.slotAt call.slot := by
  induction ids generalizing t with
  | nil => simp [removeAllExpired]
  | cons head ids ih =>
      rw [removeAllExpired_cons]
      change ((t.removeIfExpired now head).1.removeAllExpired now ids).1.slotAt call.slot = _
      have hwell := h.removeIfExpired now head
      by_cases heq : head = id
      · subst heq
        cases hexpired : t.hasExpired now head with
        | true =>
            -- Its slot belongs to no entry any more, so the rest of the sweep does not see it.
            rw [slotAt_removeAllExpired_of_ne, removeIfExpired_of_expired hexpired, slotAt_cancel,
              slotAt_conclude_self hget (h.slot_made head call hget)]
            · simp
            · intro id call' hother hslot
              rw [removeIfExpired_of_expired hexpired, get?_cancel] at hother
              split at hother
              · cases hother
              · next hne => exact h.slot_ne hget hother hne hslot.symm
        | false =>
            rw [removeIfExpired_of_not_expired hexpired, ih h hget, hexpired]
            simp
      · have hslot : (t.removeIfExpired now head).1.slotAt call.slot = t.slotAt call.slot :=
          slotAt_removeIfExpired_of_ne fun call' hhead => h.slot_ne hhead hget heq
        have hget' := get?_removeIfExpired_of_ne t now heq
        have hhas : (t.removeIfExpired now head).1.hasExpired now id = t.hasExpired now id := by
          rw [hasExpired, hget', hasExpired]
        rw [ih hwell (hget'.trans hget), hslot, hhas]
        simp [Ne.symm heq]

end Table

end GatewayClient
