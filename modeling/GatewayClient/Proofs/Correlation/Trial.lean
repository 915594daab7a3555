/-
Runs of a session with a table.  A call is followed through a run by its id, its entry and its slot:
as long as its id is not issued again, only actions on that id and sweeps have to do with it.
-/
import GatewayClient.Session.Trial
import GatewayClient.Proofs.Correlation.Table

namespace GatewayClient

namespace Trial

/-- The session after some actions. -/
def run (t : Trial) (actions : List Action) : Trial :=
  actions.foldl (fun t action => (t.perform action).1) t

/-- Whether an action comes to an end.  A registration goes on until it finds an id that no pending
call has, and there has to be one. -/
def Returns (t : Trial) : Action → Prop
  | .register _ _ => t.table.pendingCount < UInt64.size
  | _ => True

/-- Whether each of some actions comes to an end. -/
def Completes (t : Trial) : List Action → Prop
  | [] => True
  | action :: rest => t.Returns action ∧ Completes (t.perform action).1 rest

instance (t : Trial) (action : Action) : Decidable (t.Returns action) :=
  match action with
  | .register _ _ => inferInstanceAs (Decidable (_ < _))
  | .resolve _ _ | .cancel _ | .abandon _ | .isPending _ | .receive _ | .dropReceiver _ | .sleep _
  | .sweep | .defaultTimeout => inferInstanceAs (Decidable True)

instance decidableCompletes :
    (t : Trial) → (actions : List Action) → Decidable (t.Completes actions)
  | _, [] => inferInstanceAs (Decidable True)
  | t, action :: rest =>
    have := decidableCompletes (t.perform action).1 rest
    inferInstanceAs (Decidable (t.Returns action ∧ Completes (t.perform action).1 rest))

@[simp] theorem run_nil (t : Trial) : t.run [] = t := rfl

@[simp] theorem run_cons (t : Trial) (action : Action) (rest : List Action) :
    t.run (action :: rest) = (t.perform action).1.run rest := rfl

theorem completes_append (t : Trial) (first second : List Action) :
    t.Completes (first ++ second) ↔ t.Completes first ∧ (t.run first).Completes second := by
  induction first generalizing t with
  | nil => simp [Completes]
  | cons action rest ih => simp [Completes, ih, and_assoc]

/-- Looking into a kept slot takes the outcome out of it, if there is one. -/
theorem receive_fst (table : Table) (receivers : Receivers) (id : UInt64) :
    (table.receive receivers id).1 =
      match receivers.get? id with
      | some slot => (table.takeOutcome slot).1
      | none => table := by
  rw [Table.receive]
  cases receivers.get? id with
  | none => rfl
  | some slot =>
      cases hcontent : table.content slot <;> simp [Table.takeOutcome, hcontent]

@[simp] theorem pending_receive (table : Table) (receivers : Receivers) (id : UInt64) :
    (table.receive receivers id).1.pending = table.pending := by
  rw [receive_fst]
  split
  · exact Table.pending_takeOutcome table _
  · rfl

@[simp] theorem tally_receive (table : Table) (receivers : Receivers) (id : UInt64) :
    (table.receive receivers id).1.tally = table.tally := by
  rw [receive_fst]
  split
  · exact Table.tally_takeOutcome table _
  · rfl

/-- Every action that comes to an end leaves the table well formed. -/
theorem wellFormed_perform {t : Trial} (h : t.table.WellFormed) {action : Action}
    (hreturns : t.Returns action) : (t.perform action).1.table.WellFormed := by
  cases action with
  | register method timeout => exact h.register method timeout t.now (Table.get?_newId hreturns)
  | resolve id outcome => exact h.resolve id outcome
  | cancel id => exact h.cancel id
  | abandon id => exact h.abandon id
  | isPending id => exact h
  | receive id =>
      change (t.table.receive t.receivers id).1.WellFormed
      rw [receive_fst]
      split
      · exact h.takeOutcome _
      · exact h
  | dropReceiver id =>
      rw [perform]
      split
      · exact h
      · exact h.dropListener _
  | sleep ms => exact h
  | sweep => exact h.removeAllExpired t.now _
  | defaultTimeout => exact h

/-- The id that an action is about; a registration is about the id that it issues. -/
def target? (t : Trial) : Action → Option UInt64
  | .register _ _ => some t.table.newId
  | .resolve id _ | .cancel id | .abandon id | .isPending id | .receive id | .dropReceiver id =>
    some id
  | .sleep _ | .sweep | .defaultTimeout => none

/-- The ids that some actions issue. -/
def issued (t : Trial) : List Action → List UInt64
  | [] => []
  | action :: rest =>
    match action with
    | .register _ _ => t.table.newId :: issued (t.perform action).1 rest
    | _ => issued (t.perform action).1 rest

/-- An action on another id leaves the entry and the receiver of an id as they are. -/
theorem records_perform (t : Trial) {id : UInt64} {action : Action}
    (htarget : t.target? action ≠ some id) (hsweep : action ≠ .sweep) :
    (t.perform action).1.table.pending.get? id = t.table.pending.get? id ∧
      (t.perform action).1.receivers.get? id = t.receivers.get? id := by
  cases action with
  | register method timeout =>
      have hne : t.table.newId ≠ id := fun heq => htarget (congrArg some heq)
      exact ⟨(Table.get?_register _ _ _ _ _).trans (if_neg hne),
        (Dictionary.get?_put _ _ _ _).trans (if_neg hne)⟩
  | resolve other outcome =>
      have hne : other ≠ id := fun heq => htarget (congrArg some heq)
      exact ⟨(Table.get?_resolve _ _ _ _).trans (if_neg hne), rfl⟩
  | cancel other =>
      have hne : other ≠ id := fun heq => htarget (congrArg some heq)
      exact ⟨(Table.get?_cancel _ _ _).trans (if_neg hne), rfl⟩
  | abandon other =>
      have hne : other ≠ id := fun heq => htarget (congrArg some heq)
      exact ⟨(Table.get?_abandon _ _ _).trans (if_neg hne), rfl⟩
  | isPending other => exact ⟨rfl, rfl⟩
  | receive other =>
      refine ⟨?_, rfl⟩
      change (t.table.receive t.receivers other).1.pending.get? id = _
      rw [pending_receive]
  | dropReceiver other =>
      have hne : other ≠ id := fun heq => htarget (congrArg some heq)
      rw [perform]
      split
      · exact ⟨rfl, rfl⟩
      · exact ⟨rfl, Dictionary.get?_erase_of_ne _ (Ne.symm hne)⟩
  | sleep ms => exact ⟨rfl, rfl⟩
  | sweep => exact absurd rfl hsweep
  | defaultTimeout => exact ⟨rfl, rfl⟩

theorem issued_cons (t : Trial) (action : Action) (rest : List Action) :
    t.issued (action :: rest) = t.issued [action] ++ (t.perform action).1.issued rest := by
  cases action <;> rfl

/-- Only registrations make slots, entries and receivers. -/
theorem fewer_perform (t : Trial) {action : Action}
    (hregister : ∀ method timeout, action ≠ .register method timeout) :
    (t.perform action).1.table.slots.length = t.table.slots.length ∧
      (∀ id call, (t.perform action).1.table.pending.get? id = some call →
        t.table.pending.get? id = some call) ∧
      (∀ id slot, (t.perform action).1.receivers.get? id = some slot →
        t.receivers.get? id = some slot) := by
  cases action with
  | register method timeout => exact absurd rfl (hregister method timeout)
  | resolve other outcome =>
      refine ⟨Table.slots_length_resolve _ _ _, ?_, fun _ _ hget => hget⟩
      intro id call hget
      have hentry := (Table.get?_resolve t.table other id outcome).symm.trans hget
      split at hentry
      · cases hentry
      · exact hentry
  | cancel other =>
      refine ⟨Table.slots_length_cancel _ _, ?_, fun _ _ hget => hget⟩
      intro id call hget
      have hentry := (Table.get?_cancel t.table other id).symm.trans hget
      split at hentry
      · cases hentry
      · exact hentry
  | abandon other =>
      refine ⟨Table.slots_length_abandon _ _, ?_, fun _ _ hget => hget⟩
      intro id call hget
      have hentry := (Table.get?_abandon t.table other id).symm.trans hget
      split at hentry
      · cases hentry
      · exact hentry
  | isPending other => exact ⟨rfl, fun _ _ hget => hget, fun _ _ hget => hget⟩
  | receive other =>
      have htable : (t.perform (.receive other)).1 =
          { t with table := (t.table.receive t.receivers other).1 } := rfl
      rw [htable, receive_fst]
      split
      · next slot _ =>
          refine ⟨Table.slots_length_takeOutcome t.table slot, ?_, fun _ _ hget => hget⟩
          intro id call hget
          rwa [← Table.pending_takeOutcome t.table slot]
      · exact ⟨rfl, fun _ _ hget => hget, fun _ _ hget => hget⟩
  | dropReceiver other =>
      rw [perform]
      split
      · exact ⟨rfl, fun _ _ hget => hget, fun _ _ hget => hget⟩
      · refine ⟨Table.slots_length_modifySlot _ _ _, fun _ _ hget => hget, ?_⟩
        intro id slot hget
        have hkept := (Dictionary.get?_erase t.receivers other id).symm.trans hget
        split at hkept
        · cases hkept
        · exact hkept
  | sleep ms => exact ⟨rfl, fun _ _ hget => hget, fun _ _ hget => hget⟩
  | sweep =>
      refine ⟨Table.slots_length_removeAllExpired _ _ _, ?_, fun _ _ hget => hget⟩
      intro id call hget
      have hentry := (Table.get?_removeAllExpired t.table t.now _ id).symm.trans hget
      split at hentry
      · cases hentry
      · exact hentry
  | defaultTimeout => exact ⟨rfl, fun _ _ hget => hget, fun _ _ hget => hget⟩

/-- Only a registration issues an id. -/
theorem mem_issued_singleton {t : Trial} {id : UInt64} {action : Action}
    (hissued : id ∈ t.issued [action]) :
    ∃ method timeout, action = .register method timeout ∧ id = t.table.newId := by
  cases action with
  | register method timeout => exact ⟨method, timeout, rfl, List.mem_singleton.mp hissued⟩
  | _ => cases hissued

/-- An entry that an action did not issue was there before. -/
theorem entry_of_perform {t : Trial} {id : UInt64} {action : Action} {call : PendingCall}
    (hissued : id ∉ t.issued [action])
    (hget : (t.perform action).1.table.pending.get? id = some call) :
    t.table.pending.get? id = some call := by
  by_cases hregister : ∃ method timeout, action = .register method timeout
  · obtain ⟨method, timeout, rfl⟩ := hregister
    have htarget : t.target? (.register method timeout) ≠ some id := by
      rintro ⟨⟩
      exact hissued (List.mem_singleton_self _)
    rwa [← (records_perform t htarget Action.noConfusion).1]
  · exact (fewer_perform t fun m o heq => hregister ⟨m, o, heq⟩).2.1 id call hget

theorem receiver_of_perform {t : Trial} {id : UInt64} {action : Action} {slot : Nat}
    (hissued : id ∉ t.issued [action])
    (hget : (t.perform action).1.receivers.get? id = some slot) :
    t.receivers.get? id = some slot := by
  by_cases hregister : ∃ method timeout, action = .register method timeout
  · obtain ⟨method, timeout, rfl⟩ := hregister
    have htarget : t.target? (.register method timeout) ≠ some id := by
      rintro ⟨⟩
      exact hissued (List.mem_singleton_self _)
    rwa [← (records_perform t htarget Action.noConfusion).2]
  · exact (fewer_perform t fun m o heq => hregister ⟨m, o, heq⟩).2.2 id slot hget

/-- A call and its id belong together: the id has no other entry and no other receiver, and the
call's slot is nobody else's. -/
structure Follows (t : Trial) (id : UInt64) (call : PendingCall) : Prop where
  made : call.slot < t.table.slots.length
  entry : ∀ call', t.table.pending.get? id = some call' → call' = call
  entry_of_slot : ∀ other call', t.table.pending.get? other = some call' →
    call'.slot = call.slot → other = id
  receiver : ∀ slot, t.receivers.get? id = some slot → slot = call.slot
  receiver_of_slot : ∀ other, t.receivers.get? other = some call.slot → other = id

namespace Follows

variable {t : Trial} {id : UInt64} {call : PendingCall} {method : String} {timeout : Option Nat}

theorem slot_ne (h : t.Follows id call) {other : UInt64} (hne : other ≠ id) :
    ∀ call', t.table.pending.get? other = some call' → call'.slot ≠ call.slot :=
  fun call' hget hslot => hne (h.entry_of_slot other call' hget hslot)

theorem receiver_ne (h : t.Follows id call) {other : UInt64} (hne : other ≠ id) :
    ∀ slot, t.receivers.get? other = some slot → slot ≠ call.slot := by
  rintro slot hget rfl
  exact hne (h.receiver_of_slot other hget)

/-- An action on another id leaves the slot of a call as it is. -/
theorem slotAt_perform (h : t.Follows id call) {action : Action}
    (htarget : t.target? action ≠ some id) (hsweep : action ≠ .sweep) :
    (t.perform action).1.table.slotAt call.slot = t.table.slotAt call.slot := by
  cases action with
  | register method timeout =>
      exact (Table.slotAt_register _ _ _ _ _).trans (if_neg (Nat.ne_of_lt h.made))
  | resolve other outcome =>
      have hne : other ≠ id := fun heq => htarget (congrArg some heq)
      exact (Table.slotAt_resolve _ _ _ _).trans (Table.slotAt_conclude_of_ne _ (h.slot_ne hne))
  | cancel other =>
      have hne : other ≠ id := fun heq => htarget (congrArg some heq)
      exact (Table.slotAt_cancel _ _ _).trans (Table.slotAt_conclude_of_ne _ (h.slot_ne hne))
  | abandon other =>
      have hne : other ≠ id := fun heq => htarget (congrArg some heq)
      exact (Table.slotAt_abandon _ _ _).trans (Table.slotAt_conclude_of_ne _ (h.slot_ne hne))
  | isPending other => rfl
  | receive other =>
      have hne : other ≠ id := fun heq => htarget (congrArg some heq)
      change (t.table.receive t.receivers other).1.slotAt call.slot = _
      rw [receive_fst]
      split
      · next slot hget =>
          rw [Table.takeOutcome]
          split
          · exact Table.slotAt_modifySlot_of_ne _ _ (h.receiver_ne hne slot hget)
          · rfl
      · rfl
  | dropReceiver other =>
      have hne : other ≠ id := fun heq => htarget (congrArg some heq)
      rw [Trial.perform]
      split
      · rfl
      · next slot hget => exact Table.slotAt_modifySlot_of_ne _ _ (h.receiver_ne hne slot hget)
  | sleep ms => rfl
  | sweep => exact absurd rfl hsweep
  | defaultTimeout => rfl

/-- A sweep leaves the slot of a call that has not expired as it is. -/
theorem slotAt_sweep (h : t.Follows id call) (htable : t.table.WellFormed)
    (hexpired : t.table.hasExpired t.now id = false) :
    (t.perform .sweep).1.table.slotAt call.slot = t.table.slotAt call.slot := by
  cases hget : t.table.pending.get? id with
  | none =>
      refine Table.slotAt_removeAllExpired_of_ne ?_ _
      intro other call' hother hslot
      rw [h.entry_of_slot other call' hother hslot, hget] at hother
      cases hother
  | some call' =>
      rw [h.entry call' hget] at hget
      exact (Table.slotAt_removeAllExpired htable _ _ hget).trans (if_neg (by simp [hexpired]))

/-- Fewer entries and receivers leave a call and its id together. -/
theorem of_fewer (h : t.Follows id call) {t' : Trial}
    (hslots : t'.table.slots.length = t.table.slots.length)
    (hentries : ∀ other call', t'.table.pending.get? other = some call' →
      t.table.pending.get? other = some call')
    (hreceivers : ∀ other slot, t'.receivers.get? other = some slot →
      t.receivers.get? other = some slot) : t'.Follows id call where
  made := by rw [hslots]; exact h.made
  entry call' hget := h.entry call' (hentries id call' hget)
  entry_of_slot other call' hget := h.entry_of_slot other call' (hentries other call' hget)
  receiver slot hget := h.receiver slot (hreceivers id slot hget)
  receiver_of_slot other hget := h.receiver_of_slot other (hreceivers other _ hget)

/-- The call that a registration enters belongs to the id that it issues. -/
theorem register (hwell : t.table.WellFormed)
    (hmade : ∀ other slot, t.receivers.get? other = some slot → slot < t.table.slots.length) :
    (t.perform (.register method timeout)).1.Follows t.table.newId
      ⟨t.table.slots.length, t.now, method, timeout.getD t.table.defaultTimeout⟩ where
  made := by
    change _ < (t.table.slots ++ [Slot.fresh]).length
    rw [List.length_append]
    exact Nat.lt_succ_self _
  entry call' hget := by
    have hentry := (Table.get?_register t.table method timeout t.now _).symm.trans hget
    rw [if_pos rfl] at hentry
    exact (Option.some.inj hentry).symm
  entry_of_slot other call' hget hslot := by
    have hentry := (Table.get?_register t.table method timeout t.now _).symm.trans hget
    split at hentry
    · next heq => exact heq.symm
    · exact absurd hslot (Nat.ne_of_lt (hwell.slot_made other call' hentry))
  receiver slot hget := by
    have hkept := (Dictionary.get?_put t.receivers t.table.newId _ _).symm.trans hget
    rw [if_pos rfl] at hkept
    exact (Option.some.inj hkept).symm
  receiver_of_slot other hget := by
    have hkept := (Dictionary.get?_put t.receivers t.table.newId _ _).symm.trans hget
    split at hkept
    · next heq => exact heq.symm
    · exact absurd rfl (Nat.ne_of_lt (hmade other _ hkept))

/-- As long as its id is not issued again, a call and its id stay together. -/
theorem perform (h : t.Follows id call) {action : Action} (hissued : id ∉ t.issued [action]) :
    (t.perform action).1.Follows id call := by
  by_cases hregister : ∃ method timeout, action = .register method timeout
  · obtain ⟨method, timeout, rfl⟩ := hregister
    have hne : t.table.newId ≠ id := by
      rintro rfl
      exact hissued (List.mem_singleton_self _)
    refine ⟨?_, ?_, ?_, ?_, ?_⟩
    · change _ < (t.table.slots ++ [Slot.fresh]).length
      rw [List.length_append]
      exact Nat.lt_succ_of_lt h.made
    · intro call' hget
      have hentry := (Table.get?_register t.table method timeout t.now _).symm.trans hget
      rw [if_neg hne] at hentry
      exact h.entry call' hentry
    · intro other call' hget hslot
      have hentry := (Table.get?_register t.table method timeout t.now _).symm.trans hget
      split at hentry
      · cases hentry
        exact absurd hslot (Nat.ne_of_gt h.made)
      · exact h.entry_of_slot other call' hentry hslot
    · intro slot hget
      have hkept := (Dictionary.get?_put t.receivers t.table.newId _ _).symm.trans hget
      rw [if_neg hne] at hkept
      exact h.receiver slot hkept
    · intro other hget
      have hkept := (Dictionary.get?_put t.receivers t.table.newId _ _).symm.trans hget
      split at hkept
      · exact absurd (Option.some.inj hkept) (Nat.ne_of_gt h.made)
      · exact h.receiver_of_slot other hkept
  · obtain ⟨hslots, hentries, hreceivers⟩ :=
      fewer_perform t fun method timeout heq => hregister ⟨method, timeout, heq⟩
    exact h.of_fewer hslots hentries hreceivers

theorem run (h : t.Follows id call) {actions : List Action} (hissued : id ∉ t.issued actions) :
    (t.run actions).Follows id call := by
  induction actions generalizing t with
  | nil => exact h
  | cons action rest ih =>
      rw [issued_cons, List.mem_append, not_or] at hissued
      exact ih (h.perform hissued.1) hissued.2

end Follows

/-- The table is well formed, and every entry and every kept receiver is followed by its id. -/
structure Sound (t : Trial) : Prop where
  table : t.table.WellFormed
  entries : ∀ id call, t.table.pending.get? id = some call → t.Follows id call
  receivers : ∀ id slot, t.receivers.get? id = some slot →
    ∃ call, t.Follows id call ∧ call.slot = slot

namespace Sound

variable {t : Trial}

theorem of_start (first : UInt64) (defaultTimeout : Nat) : (start first defaultTimeout).Sound where
  table := Table.WellFormed.of_new rfl rfl
  entries _ _ hget := by cases hget
  receivers _ _ hget := by cases hget

/-- What a registration enters is followed by the id that it issues. -/
theorem follows_register (h : t.Sound) (method : String) (timeout : Option Nat) :
    (t.perform (.register method timeout)).1.Follows t.table.newId
      ⟨t.table.slots.length, t.now, method, timeout.getD t.table.defaultTimeout⟩ := by
  apply Follows.register h.table
  intro other slot hget
  obtain ⟨call, hfollows, rfl⟩ := h.receivers other slot hget
  exact hfollows.made

theorem perform (h : t.Sound) {action : Action} (hreturns : t.Returns action) :
    (t.perform action).1.Sound := by
  refine ⟨wellFormed_perform h.table hreturns, ?_, ?_⟩
  · intro id call hget
    by_cases hissued : id ∈ t.issued [action]
    · obtain ⟨method, timeout, rfl, rfl⟩ := mem_issued_singleton hissued
      have hfollows := h.follows_register method timeout
      rwa [← hfollows.entry call hget] at hfollows
    · exact (h.entries id call (entry_of_perform hissued hget)).perform hissued
  · intro id slot hget
    by_cases hissued : id ∈ t.issued [action]
    · obtain ⟨method, timeout, rfl, rfl⟩ := mem_issued_singleton hissued
      have hfollows := h.follows_register method timeout
      exact ⟨_, hfollows, (hfollows.receiver slot hget).symm⟩
    · obtain ⟨call, hfollows, hslot⟩ := h.receivers id slot (receiver_of_perform hissued hget)
      exact ⟨call, hfollows.perform hissued, hslot⟩

theorem run (h : t.Sound) {actions : List Action} (hcompletes : t.Completes actions) :
    (t.run actions).Sound := by
  induction actions generalizing t with
  | nil => exact h
  | cons action rest ih => exact ih (h.perform hcompletes.1) hcompletes.2

/-- What is done to one id leaves the entry and the receiver of any other as they are, and so does
a sweep if the other has not expired. -/
theorem frame (h : t.Sound) {action : Action} {other : UInt64}
    (htarget : t.target? action ≠ some other)
    (hswept : action ≠ .sweep ∨ t.table.hasExpired t.now other = false) :
    (t.perform action).1.table.pending.get? other = t.table.pending.get? other ∧
      (t.perform action).1.receivers.get? other = t.receivers.get? other ∧
      ∀ slot, t.receivers.get? other = some slot →
        (t.perform action).1.table.content slot = t.table.content slot ∧
          (t.perform action).1.table.isListening slot = t.table.isListening slot := by
  simp only [Table.content_eq, Table.isListening_eq]
  by_cases hsweep : action = .sweep
  · subst hsweep
    have hexpired : t.table.hasExpired t.now other = false :=
      hswept.resolve_left fun hne => hne rfl
    refine ⟨?_, rfl, ?_⟩
    · exact (Table.get?_removeAllExpired _ _ _ _).trans (if_neg (by simp [hexpired]))
    · intro slot hget
      obtain ⟨call, hfollows, rfl⟩ := h.receivers other slot hget
      have hslot := hfollows.slotAt_sweep h.table hexpired
      exact ⟨congrArg Slot.content hslot, congrArg Slot.listening hslot⟩
  · obtain ⟨hentry, hreceiver⟩ := records_perform t htarget hsweep
    refine ⟨hentry, hreceiver, ?_⟩
    intro slot hget
    obtain ⟨call, hfollows, rfl⟩ := h.receivers other slot hget
    have hslot := hfollows.slotAt_perform htarget hsweep
    exact ⟨congrArg Slot.content hslot, congrArg Slot.listening hslot⟩

end Sound

end Trial

end GatewayClient
