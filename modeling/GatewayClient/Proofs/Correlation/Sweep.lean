/-
What a sweep does, exactly.  It ends the calls that have had more than their timeout, each as if it
had been cancelled, and it does not matter in which order: to cancel two calls comes to the same
either way round.  Every other call stays as it is, and a second sweep at the same time finds
nothing to end.
-/
import GatewayClient.Proofs.Correlation.Commuting

namespace GatewayClient

namespace Table

variable {t : Table} {now : Nat} {id other : UInt64} {ids ids' : List UInt64}

/-- The table after some ids have been cancelled, one after the other. -/
def cancelAll (t : Table) (ids : List UInt64) : Table :=
  ids.foldl (fun t id => (t.cancel id).1) t

theorem cancelAll_cons (t : Table) (id : UInt64) (ids : List UInt64) :
    t.cancelAll (id :: ids) = (t.cancel id).1.cancelAll ids := rfl

/-- To cancel an id ends its call and counts one timeout, if there is such a call. -/
theorem cancel_fst (t : Table) (id : UInt64) :
    (t.cancel id).1 =
      { t.conclude id (·.fill (.error .timeout)) with
        tally := t.tally.credit (if t.isPending id then 1 else 0) .timeouts } := by
  rw [cancel, isPending, Dictionary.contains]
  cases hget : t.pending.get? id with
  | none =>
      rw [conclude_of_none hget]
      exact congrArg (fun tally => { t with tally := tally }) (Tally.credit_zero t.tally _).symm
  | some call =>
      rw [conclude_of_some hget]
      rfl

theorem isPending_cancel_of_ne (hne : id ≠ other) :
    (t.cancel id).1.isPending other = t.isPending other := by
  rw [isPending, isPending, Dictionary.contains, Dictionary.contains, get?_cancel, if_neg hne]

/-- Of two ids either may be cancelled first. -/
theorem Guarded.cancel_comm (h : t.Guarded) (id other : UInt64) :
    ((t.cancel id).1.cancel other).1 = ((t.cancel other).1.cancel id).1 := by
  by_cases heq : id = other
  · rw [heq]
  · rw [cancel_fst (t.cancel id).1, cancel_fst (t.cancel other).1, isPending_cancel_of_ne heq,
      isPending_cancel_of_ne (Ne.symm heq), cancel_fst t id, cancel_fst t other]
    simp only [conclude_setTally]
    rw [h.conclude_comm heq, Tally.credit_comm]

/-- The order in which ids are cancelled makes no difference. -/
theorem Guarded.cancelAll_perm (h : t.Guarded) (hperm : ids.Perm ids') :
    t.cancelAll ids = t.cancelAll ids' := by
  induction hperm generalizing t with
  | nil => rfl
  | cons id _ ih => exact ih (h.cancel id)
  | swap id other ids =>
      rw [cancelAll_cons, cancelAll_cons, cancelAll_cons, cancelAll_cons, h.cancel_comm]
  | trans _ _ ih ih' => exact (ih h).trans (ih' h)

theorem WellFormed.guarded (h : t.WellFormed) : t.Guarded where
  made := h.slot_made
  apart := h.slot_inj
  empty id call hget := (h.empty_iff call.slot).mpr ⟨id, call, hget, rfl⟩

/-- An id has expired exactly if there is a call of it that has had more than its timeout. -/
theorem hasExpired_iff (t : Table) (now : Nat) (id : UInt64) :
    t.hasExpired now id = true ↔
      ∃ call, t.pending.get? id = some call ∧ call.timeout < now - call.registeredAt := by
  simp only [hasExpired, Option.any_eq_true, PendingCall.isExpired, decide_eq_true_iff]

theorem hasExpired_cancel_of_ne (hne : id ≠ other) :
    (t.cancel id).1.hasExpired now other = t.hasExpired now other := by
  rw [hasExpired, hasExpired, get?_cancel, if_neg hne]

/-- To go through ids that have all expired is to cancel each of them. -/
theorem removeAllExpired_of_expired (hids : ids.Nodup)
    (hexpired : ∀ id ∈ ids, t.hasExpired now id = true) :
    t.removeAllExpired now ids = (t.cancelAll ids, ids.length) := by
  induction ids generalizing t with
  | nil => rfl
  | cons id ids ih =>
      obtain ⟨hhead, htail⟩ := List.forall_mem_cons.mp hexpired
      obtain ⟨hnew, hids⟩ := List.nodup_cons.mp hids
      have hcancelled : (t.cancel id).2 = true := by
        obtain ⟨call, hget, -⟩ := (hasExpired_iff t now id).mp hhead
        rw [cancel, hget]
      -- The ids that are left have expired still: their calls are not the one that has been ended.
      have hleft : ∀ other ∈ ids, (t.cancel id).1.hasExpired now other = true := by
        intro other hmem
        have hne : id ≠ other := by
          rintro rfl
          exact hnew hmem
        rw [hasExpired_cancel_of_ne hne, htail other hmem]
      rw [removeAllExpired_cons, removeIfExpired_of_expired hhead, ih hids hleft, hcancelled]
      rfl

theorem nodup_expiredIds (hids : t.pendingIds.Nodup) (now : Nat) : (t.expiredIds now).Nodup :=
  hids.sublist ((List.filter_sublist).map Prod.fst)

theorem WellFormed.removeExpired_eq (h : t.WellFormed) (now : Nat) :
    t.removeExpired now = (t.cancelAll (t.expiredIds now), (t.expiredIds now).length) :=
  removeAllExpired_of_expired (nodup_expiredIds h.ids_nodup now)
    fun id hmem => (mem_expiredIds h now id).mp hmem

theorem WellFormed.get?_removeExpired (h : t.WellFormed) (now : Nat) (id : UInt64) :
    (t.removeExpired now).1.pending.get? id =
      if t.hasExpired now id then none else t.pending.get? id := by
  rw [removeExpired, get?_removeAllExpired]
  simp only [mem_expiredIds h, and_self]

/-- When a sweep is over nothing has expired. -/
theorem WellFormed.hasExpired_removeExpired (h : t.WellFormed) (now : Nat) (id : UInt64) :
    (t.removeExpired now).1.hasExpired now id = false := by
  rw [hasExpired, h.get?_removeExpired]
  cases hexpired : t.hasExpired now id with
  | true => rfl
  | false => exact hexpired

theorem WellFormed.removeExpired_removeExpired (h : t.WellFormed) (now : Nat) :
    (t.removeExpired now).1.removeExpired now = ((t.removeExpired now).1, 0) := by
  have hnone : (t.removeExpired now).1.expiredIds now = [] := by
    apply List.eq_nil_iff_forall_not_mem.mpr
    intro id hmem
    have hexpired := (mem_expiredIds (h.removeAllExpired now _) now id).mp hmem
    rw [← removeExpired, h.hasExpired_removeExpired] at hexpired
    cases hexpired
  rw [removeExpired, hnone]
  rfl

/-- A slot that belongs to no call that has expired is left alone. -/
theorem WellFormed.slotAt_removeExpired_of_ne (h : t.WellFormed) {slot : Nat}
    (hne : ∀ id call, t.pending.get? id = some call → t.hasExpired now id = true →
      call.slot ≠ slot) :
    (t.removeExpired now).1.slotAt slot = t.slotAt slot := by
  by_cases howner : ∃ id call, t.pending.get? id = some call ∧ call.slot = slot
  · obtain ⟨id, call, hget, rfl⟩ := howner
    rw [removeExpired, slotAt_removeAllExpired h now _ hget, if_neg]
    rintro ⟨-, hexpired⟩
    exact hne id call hget hexpired rfl
  · exact slotAt_removeAllExpired_of_ne
      (fun id call hget heq => howner ⟨id, call, hget, heq⟩) _

/-- What the receiver of a call finds after a sweep that has ended it. -/
theorem WellFormed.content_removeExpired (h : t.WellFormed) {call : PendingCall}
    (hget : t.pending.get? id = some call) (hexpired : t.hasExpired now id = true) :
    (t.removeExpired now).1.content call.slot =
        (if t.isListening call.slot then .filled (.error .timeout) else .closed) ∧
      (t.removeExpired now).1.isListening call.slot = t.isListening call.slot := by
  have hslot : (t.removeExpired now).1.slotAt call.slot =
      (t.slotAt call.slot).fill (.error .timeout) := by
    rw [removeExpired, slotAt_removeAllExpired h now _ hget,
      if_pos ⟨(mem_expiredIds h now id).mpr hexpired, hexpired⟩]
  rw [content_eq, isListening_eq, isListening_eq, hslot]
  exact ⟨Slot.content_fill _ _, Slot.listening_fill _ _⟩

/-- A sweep is exact.  What is left are the calls that have not had more than their timeout, each
with the entry that it had; one that has had just its timeout is among them.  The receivers of the
others find a timeout, as far as they are still there, and no other receiver finds anything new.
The sweep says how many calls it has ended, and a second one at the same time changes nothing.  In
whatever order the expired ids are gone through, and also if each is cancelled on its own, the same
table results, with its receivers and counters. -/
theorem sweep_exact {t t' : Table} {now removed : Nat} (h : t.WellFormed)
    (hsweep : t.removeExpired now = (t', removed)) :
    (∀ id call, t'.pending.get? id = some call ↔
      t.pending.get? id = some call ∧ ¬ call.timeout < now - call.registeredAt) ∧
    (∀ id call, t.pending.get? id = some call → call.timeout < now - call.registeredAt →
      t'.content call.slot =
          (if t.isListening call.slot then .filled (.error .timeout) else .closed) ∧
        t'.isListening call.slot = t.isListening call.slot) ∧
    (∀ slot, (∀ id call, t.pending.get? id = some call →
        call.timeout < now - call.registeredAt → call.slot ≠ slot) →
      t'.slotAt slot = t.slotAt slot) ∧
    (removed = (t.pending.filter fun entry =>
        entry.2.timeout < now - entry.2.registeredAt).length ∧
      t'.pendingCount + removed = t.pendingCount) ∧
    t'.removeExpired now = (t', 0) ∧
    ∀ ids : List UInt64, ids.Nodup →
      (∀ id, id ∈ ids ↔ ∃ call, t.pending.get? id = some call ∧
        call.timeout < now - call.registeredAt) →
      t.removeAllExpired now ids = (t', removed) ∧ t.cancelAll ids = t' := by
  obtain rfl : (t.removeExpired now).1 = t' := congrArg Prod.fst hsweep
  obtain rfl : (t.removeExpired now).2 = removed := congrArg Prod.snd hsweep
  refine ⟨?_, ?_, ?_, ⟨?_, ?_⟩, h.removeExpired_removeExpired now, ?_⟩
  · intro id call
    rw [h.get?_removeExpired]
    cases hexpired : t.hasExpired now id with
    | true =>
        obtain ⟨call', hget, hlate⟩ := (hasExpired_iff t now id).mp hexpired
        rw [if_pos rfl]
        refine iff_of_false (Option.some_ne_none call).symm ?_
        rintro ⟨hsame, hearly⟩
        rw [hget, Option.some.injEq] at hsame
        exact hearly (hsame ▸ hlate)
    | false =>
        refine ⟨fun hget => ⟨hget, fun hlate => ?_⟩, And.left⟩
        rw [(hasExpired_iff t now id).mpr ⟨call, hget, hlate⟩] at hexpired
        cases hexpired
  · intro id call hget hlate
    exact h.content_removeExpired hget ((hasExpired_iff t now id).mpr ⟨call, hget, hlate⟩)
  · intro slot hne
    apply h.slotAt_removeExpired_of_ne
    intro id call hget hexpired
    obtain ⟨call', hget', hlate⟩ := (hasExpired_iff t now id).mp hexpired
    rw [hget, Option.some.injEq] at hget'
    exact hne id call hget (hget' ▸ hlate)
  · rw [h.removeExpired_eq]
    exact List.length_map _
  · exact (removeAllExpired_ledger h now _).1
  · intro ids hids hmem
    have hexpired : ∀ id ∈ ids, t.hasExpired now id = true :=
      fun id hid => (hasExpired_iff t now id).mpr ((hmem id).mp hid)
    have hperm : ids.Perm (t.expiredIds now) := by
      apply (List.perm_ext_iff_of_nodup hids (nodup_expiredIds h.ids_nodup now)).mpr
      intro id
      rw [hmem, mem_expiredIds h, hasExpired_iff]
    rw [removeAllExpired_of_expired hids hexpired, h.removeExpired_eq, hperm.length_eq,
      h.guarded.cancelAll_perm hperm]
    exact ⟨rfl, rfl⟩

/-- Of three calls two are late, and the receiver of one of these has gone; the third has had just
its timeout. -/
theorem sweep_exact_at_deadline :
    let actions : List Trial.Action :=
      [.register "device.name" (some 10), .register "device.model" (some 10),
        .register "device.sku" (some 11), .dropReceiver 2, .sleep 11]
    let t := ((Trial.start 1 1000).run actions).table
    let t' := (t.removeExpired 11).1
    t.WellFormed ∧ t.removeExpired 11 = (t', 2) ∧ t'.pendingIds = [3] ∧
      t'.content 0 = .filled (.error .timeout) ∧ t'.content 1 = .closed ∧
      t'.removeExpired 11 = (t', 0) ∧ t.cancelAll [2, 1] = t' := by
  intro actions t t'
  have hcompletes : (Trial.start 1 1000).Completes actions := by decide
  have h : t.WellFormed := ((Trial.Sound.of_start 1 1000).run hcompletes).table
  have hsweep : t.removeExpired 11 = (t', 2) := by decide
  obtain ⟨-, hgone, -, -, hagain, hany⟩ := sweep_exact h hsweep
  refine ⟨h, hsweep, by decide, ?_, ?_, hagain, ?_⟩
  · exact (hgone 1 ⟨0, 0, "device.name", 10⟩ (by decide) (by decide)).1
  · exact (hgone 2 ⟨1, 0, "device.model", 10⟩ (by decide) (by decide)).1
  · have hids : t.expiredIds 11 = [1, 2] := by decide
    refine (hany [2, 1] (by decide) fun id => ?_).2
    rw [← hasExpired_iff, ← mem_expiredIds h, hids, List.mem_pair, List.mem_pair, or_comm]

end Table

end GatewayClient
