/-
The first action that removes the entry of a call decides what its receiver finds.  Up to then the
receiver is empty; after it, nothing changes what is there.
-/
import GatewayClient.Proofs.Correlation.Trial

namespace GatewayClient

namespace Trial

/-- The outcome that an action has for the calls that it ends, if it has one. -/
def Action.outcome? : Action → Option Outcome
  | .resolve _ outcome => some outcome
  | .cancel _ | .sweep => some (.error .timeout)
  | _ => none

/-- What a receiver finds after the action that ended its call, as somebody listened or not. -/
def Action.leaves (action : Action) (listening : Bool) : SlotContent :=
  match action.outcome?, listening with
  | some outcome, true => .filled outcome
  | _, _ => .closed

/-- Whether an action is one that ends the call of an id, if it is still there. -/
def ends (t : Trial) (id : UInt64) : Action → Prop
  | .resolve other _ | .cancel other | .abandon other => other = id
  | .sweep => t.table.hasExpired t.now id = true
  | _ => False

/-- Whether an action removes the entry of an id. -/
def removes (t : Trial) (action : Action) (id : UInt64) : Bool :=
  t.table.isPending id && !(t.perform action).1.table.isPending id

/-- The first of some actions that removes the entry of an id, with the session that it finds. -/
def remover? (t : Trial) (id : UInt64) : List Action → Option (Trial × Action)
  | [] => none
  | action :: rest =>
    if t.removes action id then some (t, action) else remover? (t.perform action).1 id rest

theorem isPending_iff (t : Table) (id : UInt64) :
    t.isPending id = true ↔ ∃ call, t.pending.get? id = some call :=
  Option.isSome_iff_exists

theorem isPending_eq_false (t : Table) (id : UInt64) :
    t.isPending id = false ↔ t.pending.get? id = none := by
  rw [Table.isPending, Dictionary.contains, Option.isSome_eq_false_iff, Option.isNone_iff_eq_none]

/-- An action removes an entry only if it is one that ends its call. -/
theorem ends_of_removes {t : Trial} {id : UInt64} {action : Action}
    (hremoves : t.removes action id = true) : t.ends id action := by
  obtain ⟨hpending, hgone⟩ := (Bool.and_eq_true _ _).mp hremoves
  obtain ⟨call, hget⟩ := (isPending_iff t.table id).mp hpending
  rw [Bool.not_eq_true', isPending_eq_false] at hgone
  have hchanged : (t.perform action).1.table.pending.get? id ≠ t.table.pending.get? id := by
    rw [hgone, hget]
    exact nofun
  by_contra hnot
  cases action with
  | register method timeout =>
      have hentry := (Table.get?_register t.table method timeout t.now id).symm.trans hgone
      split at hentry
      · cases hentry
      · cases hget.symm.trans hentry
  | resolve other outcome => exact hchanged ((Table.get?_resolve _ _ _ _).trans (if_neg hnot))
  | cancel other => exact hchanged ((Table.get?_cancel _ _ _).trans (if_neg hnot))
  | abandon other => exact hchanged ((Table.get?_abandon _ _ _).trans (if_neg hnot))
  | sweep =>
      have hkept : ¬(id ∈ t.table.expiredIds t.now ∧ t.table.hasExpired t.now id = true) :=
        fun hswept => hnot hswept.2
      exact hchanged ((Table.get?_removeAllExpired _ _ _ _).trans (if_neg hkept))
  | receive other => exact hchanged (congrArg (Dictionary.get? · id) (pending_receive _ _ _))
  | dropReceiver other =>
      apply hchanged
      rw [perform]
      split <;> rfl
  | isPending | sleep | defaultTimeout => exact hchanged rfl

namespace Follows

variable {t : Trial} {id : UInt64} {call : PendingCall} {action : Action}

/-- The entry of a pending call is the one followed. -/
theorem get?_of_isPending (h : t.Follows id call) (hpending : t.table.isPending id = true) :
    t.table.pending.get? id = some call := by
  obtain ⟨call', hget⟩ := (isPending_iff t.table id).mp hpending
  rwa [h.entry call' hget] at hget

/-- A pending call's receiver is empty. -/
theorem content_of_isPending (h : t.Follows id call) (htable : t.table.WellFormed)
    (hpending : t.table.isPending id = true) : t.table.content call.slot = .empty := by
  rw [Table.content_eq]
  exact (htable.empty_iff call.slot).mpr ⟨id, call, h.get?_of_isPending hpending, rfl⟩

/-- An action that ends a pending call leaves what it has for it. -/
theorem content_of_ends (h : t.Follows id call) (htable : t.table.WellFormed)
    (hpending : t.table.isPending id = true) (hends : t.ends id action) :
    (t.perform action).1.table.content call.slot =
      action.leaves (t.table.isListening call.slot) := by
  have hget := h.get?_of_isPending hpending
  have hmade := htable.slot_made id call hget
  rw [Table.content_eq, Table.isListening_eq]
  cases action with
  | resolve other outcome =>
      obtain rfl : other = id := hends
      change ((t.table.resolve other outcome).1.slotAt call.slot).content = _
      rw [Table.slotAt_resolve, Table.slotAt_conclude_self hget hmade, Slot.content_fill]
      cases (t.table.slotAt call.slot).listening <;> rfl
  | cancel other =>
      obtain rfl : other = id := hends
      change ((t.table.cancel other).1.slotAt call.slot).content = _
      rw [Table.slotAt_cancel, Table.slotAt_conclude_self hget hmade, Slot.content_fill]
      cases (t.table.slotAt call.slot).listening <;> rfl
  | abandon other =>
      obtain rfl : other = id := hends
      change ((t.table.abandon other).1.slotAt call.slot).content = _
      rw [Table.slotAt_abandon, Table.slotAt_conclude_self hget hmade]
      cases (t.table.slotAt call.slot).listening <;> rfl
  | sweep =>
      have hexpired : t.table.hasExpired t.now id = true := hends
      have hswept := And.intro ((Table.mem_expiredIds htable t.now id).mpr hexpired) hexpired
      change ((t.table.removeAllExpired t.now _).1.slotAt call.slot).content = _
      rw [Table.slotAt_removeAllExpired htable t.now _ hget, if_pos hswept, Slot.content_fill]
      cases (t.table.slotAt call.slot).listening <;> rfl
  | register | isPending | receive | dropReceiver | sleep | defaultTimeout => exact hends.elim

/-- Once a call's entry is gone, only taking the outcome out changes what its receiver finds. -/
theorem content_perform_of_gone (h : t.Follows id call)
    (hgone : t.table.isPending id = false) (htaken : action ≠ .receive id) :
    (t.perform action).1.table.content call.slot = t.table.content call.slot := by
  rw [isPending_eq_false] at hgone
  rw [Table.content_eq, Table.content_eq]
  have hslot : ∀ other call', t.table.pending.get? other = some call' → call'.slot ≠ call.slot := by
    intro other call' hget heq
    rw [h.entry_of_slot other call' hget heq, hgone] at hget
    cases hget
  cases action with
  | register method timeout =>
      exact congrArg Slot.content
        ((Table.slotAt_register _ _ _ _ _).trans (if_neg (Nat.ne_of_lt h.made)))
  | resolve other outcome =>
      exact congrArg Slot.content
        ((Table.slotAt_resolve _ _ _ _).trans (Table.slotAt_conclude_of_ne _ (hslot other)))
  | cancel other =>
      exact congrArg Slot.content
        ((Table.slotAt_cancel _ _ _).trans (Table.slotAt_conclude_of_ne _ (hslot other)))
  | abandon other =>
      exact congrArg Slot.content
        ((Table.slotAt_abandon _ _ _).trans (Table.slotAt_conclude_of_ne _ (hslot other)))
  | sweep =>
      exact congrArg Slot.content (Table.slotAt_removeAllExpired_of_ne hslot _)
  | dropReceiver other =>
      rw [Trial.perform]
      split
      · rfl
      · next slot hget =>
          change ((t.table.modifySlot slot Slot.abandon).slotAt call.slot).content = _
          rw [Table.slotAt_modifySlot _ _ _ _ h.made]
          split <;> rfl
  | receive other =>
      have hne : other ≠ id := by
        rintro rfl
        exact htaken rfl
      exact congrArg Slot.content (h.slotAt_perform (by simp [target?, hne]) Action.noConfusion)
  | isPending other => rfl
  | sleep ms => rfl
  | defaultTimeout => rfl

end Follows

/-- After actions that neither issue its id again nor take the outcome out, a call that was gone is
gone, and its receiver finds what it found. -/
theorem Follows.run_of_gone {t : Trial} {id : UInt64} {call : PendingCall} {actions : List Action}
    (h : t.Follows id call) (hgone : t.table.isPending id = false)
    (hissued : id ∉ t.issued actions) (htaken : .receive id ∉ actions) :
    (t.run actions).table.isPending id = false ∧
      (t.run actions).table.content call.slot = t.table.content call.slot := by
  induction actions generalizing t with
  | nil => exact ⟨hgone, rfl⟩
  | cons action rest ih =>
      rw [issued_cons, List.mem_append, not_or] at hissued
      rw [List.mem_cons, not_or] at htaken
      have hstays : (t.perform action).1.table.isPending id = false := by
        rw [isPending_eq_false] at hgone ⊢
        apply Option.eq_none_iff_forall_ne_some.mpr
        intro call' hget
        rw [entry_of_perform hissued.1 hget] at hgone
        cases hgone
      have hrest := ih (h.perform hissued.1) hstays hissued.2 htaken.2
      exact ⟨hrest.1, hrest.2.trans (h.content_perform_of_gone hgone (Ne.symm htaken.1))⟩

/-- After any actions that neither issue the id again nor take the outcome out: a call that none of
them has ended is pending, and one that was ended is gone, and its receiver has what the first that
ended it left. -/
theorem Sound.fate {t : Trial} {id : UInt64} {call : PendingCall} {actions : List Action}
    (h : t.Sound) (hfollows : t.Follows id call) (hpending : t.table.isPending id = true)
    (hcompletes : t.Completes actions) (hissued : id ∉ t.issued actions)
    (htaken : .receive id ∉ actions) :
    match t.remover? id actions with
    | none => (t.run actions).table.isPending id = true
    | some (found, action) =>
      (t.run actions).table.isPending id = false ∧ found.ends id action ∧
        (t.run actions).table.content call.slot =
          action.leaves (found.table.isListening call.slot) := by
  induction actions generalizing t with
  | nil => exact hpending
  | cons action rest ih =>
      rw [issued_cons, List.mem_append, not_or] at hissued
      rw [List.mem_cons, not_or] at htaken
      have hnext := hfollows.perform hissued.1
      rw [remover?, run_cons]
      cases hremoves : t.removes action id with
      | true =>
          have hgone : (t.perform action).1.table.isPending id = false := by
            simpa [hpending] using ((Bool.and_eq_true _ _).mp hremoves).2
          have hends := ends_of_removes hremoves
          have hleaves := hfollows.content_of_ends h.table hpending hends
          obtain ⟨hstays, hcontent⟩ := hnext.run_of_gone hgone hissued.2 htaken.2
          exact ⟨hstays, hends, hcontent.trans hleaves⟩
      | false =>
          have hstays : (t.perform action).1.table.isPending id = true := by
            simpa [removes, hpending] using hremoves
          exact ih (h.perform hcompletes.1) hnext hstays hcompletes.2 hissued.2 htaken.2

theorem cancel_snd (t : Table) (id : UInt64) : (t.cancel id).2 = t.isPending id := by
  rw [Table.cancel, Table.isPending, Dictionary.contains]
  cases t.pending.get? id <;> rfl

theorem abandon_snd (t : Table) (id : UInt64) : (t.abandon id).2 = t.isPending id := by
  rw [Table.abandon, Table.isPending, Dictionary.contains]
  cases t.pending.get? id <;> rfl

theorem Follows.resolve_snd {t : Trial} {id : UInt64} {call : PendingCall}
    (h : t.Follows id call) (outcome : Outcome) :
    (t.table.resolve id outcome).2 = true ↔
      t.table.isPending id = true ∧ t.table.isListening call.slot = true := by
  rw [Table.resolve, Table.isPending, Dictionary.contains]
  cases hget : t.table.pending.get? id with
  | none => simp
  | some call' =>
      rw [h.entry call' hget]
      cases hlistening : t.table.isListening call.slot <;> simp [hlistening]

/-- An action that ends the call of an id removes the entry if it is there. -/
theorem removes_of_ends {t : Trial} {id : UInt64} {action : Action} (htable : t.table.WellFormed)
    (hends : t.ends id action) : t.removes action id = t.table.isPending id := by
  have hgone : (t.perform action).1.table.isPending id = false := by
    rw [isPending_eq_false]
    cases action with
    | resolve other outcome => exact (Table.get?_resolve _ _ _ _).trans (if_pos hends)
    | cancel other => exact (Table.get?_cancel _ _ _).trans (if_pos hends)
    | abandon other => exact (Table.get?_abandon _ _ _).trans (if_pos hends)
    | sweep =>
        have hswept := And.intro ((Table.mem_expiredIds htable t.now id).mpr hends) hends
        exact (Table.get?_removeAllExpired _ _ _ _).trans (if_pos hswept)
    | register _ _ | isPending _ | receive _ | dropReceiver _ | sleep _ | defaultTimeout =>
        exact hends.elim
  rw [removes, hgone, Bool.not_false, Bool.and_true]

/-- Whether an action, done after some others, is the first that removes the entry of an id. -/
def IsFirstRemover (t : Trial) (id : UInt64) (before : List Action) (action : Action) : Prop :=
  t.remover? id before = none ∧ (t.run before).removes action id = true

/-- After actions that do not issue its id again, a call is pending exactly if an action that ends
it would be the first to remove its entry. -/
theorem Sound.isPending_iff_isFirstRemover {t : Trial} {id : UInt64} {call : PendingCall}
    {before : List Action} {action : Action} (h : t.Sound) (hfollows : t.Follows id call)
    (hpending : t.table.isPending id = true) (hcompletes : t.Completes before)
    (hissued : id ∉ t.issued before) (htaken : .receive id ∉ before)
    (hends : (t.run before).ends id action) :
    (t.run before).table.isPending id = true ↔ t.IsFirstRemover id before action := by
  have hfate := h.fate hfollows hpending hcompletes hissued htaken
  rw [IsFirstRemover, removes_of_ends (h.run hcompletes).table hends]
  cases hremover : t.remover? id before with
  | none => simp
  | some found =>
      rw [hremover] at hfate
      simp [hfate.1]

/-- The first action that removes the entry of a call decides what its receiver finds.  Here a call
is registered after any actions, and more actions follow that neither issue its id again nor take
the outcome out of its receiver.  The receiver is empty as long as none of them has removed the
entry; after that it has what the first that did so leaves, for good.  To resolve, to cancel or to
abandon says yes exactly if it is that first action, and to resolve only if the receiver is still
there.  What is done to one id concerns no other.  As long as the call is pending, to resolve, to
cancel or to abandon it removes its entry, and so does a sweep that finds it expired; each is the
first then, and its receiver has what it leaves. -/
theorem first_remover_decides {first : UInt64} {defaultTimeout : Nat} {before after : List Action}
    {method : String} {timeout : Option Nat} {id : UInt64} {slot : Nat} {t₀ t₁ t : Trial}
    (ht₀ : t₀ = (start first defaultTimeout).run before)
    (ht₁ : t₁ = (t₀.perform (.register method timeout)).1)
    (ht : t = t₁.run after)
    (hcompletes :
      (start first defaultTimeout).Completes (before ++ .register method timeout :: after))
    (hid : (t₀.perform (.register method timeout)).2 = .id id)
    (hslot : t₁.receivers.get? id = some slot)
    (hissued : id ∉ t₁.issued after) (htaken : .receive id ∉ after) :
    -- what the receiver finds
    (match t₁.remover? id after with
      | none => t.table.isPending id = true ∧ t.table.content slot = .empty
      | some (found, action) => t.table.isPending id = false ∧ found.ends id action ∧
        t.table.content slot = action.leaves (found.table.isListening slot)) ∧
    -- what is said
    (∀ outcome, ∃ told, (t.perform (.resolve id outcome)).2 = .truth told ∧
      (told = true ↔ t₁.IsFirstRemover id after (.resolve id outcome) ∧
        t.table.isListening slot = true)) ∧
    (∃ told, (t.perform (.cancel id)).2 = .truth told ∧
      (told = true ↔ t₁.IsFirstRemover id after (.cancel id))) ∧
    (∃ told, (t.perform (.abandon id)).2 = .truth told ∧
      (told = true ↔ t₁.IsFirstRemover id after (.abandon id))) ∧
    -- what is done to others
    (∀ action other, t₀.target? action ≠ some other →
      action ≠ .sweep ∨ t₀.table.hasExpired t₀.now other = false →
      (t₀.perform action).1.table.pending.get? other = t₀.table.pending.get? other ∧
        (t₀.perform action).1.receivers.get? other = t₀.receivers.get? other ∧
        ∀ slot, t₀.receivers.get? other = some slot →
          (t₀.perform action).1.table.content slot = t₀.table.content slot ∧
            (t₀.perform action).1.table.isListening slot = t₀.table.isListening slot) ∧
    -- who removes
    (t.table.isPending id = true → ∀ action, t.ends id action →
      t₁.IsFirstRemover id after action ∧ (t.perform action).1.table.isPending id = false ∧
        (t.perform action).1.table.content slot = action.leaves (t.table.isListening slot)) := by
  subst ht₀ ht₁ ht
  let t₀ := (start first defaultTimeout).run before
  let t₁ := (t₀.perform (.register method timeout)).1
  let t := t₁.run after
  obtain ⟨hbefore, hreturns, hafter⟩ := (completes_append _ _ _).mp hcompletes
  have hsound₀ : t₀.Sound := (Sound.of_start first defaultTimeout).run hbefore
  have hsound₁ : t₁.Sound := hsound₀.perform hreturns
  have hsound : t.Sound := hsound₁.run hafter
  obtain rfl : t₀.table.newId = id := Reply.id.inj hid
  have hfollows₁ := hsound₀.follows_register method timeout
  have hfollows := hfollows₁.run hissued
  obtain rfl := hfollows₁.receiver slot hslot
  have hpending₁ : t₁.table.isPending t₀.table.newId = true :=
    (isPending_iff _ _).mpr ⟨_, (Table.get?_register _ _ _ _ _).trans (if_pos rfl)⟩
  have hfate := hsound₁.fate hfollows₁ hpending₁ hafter hissued htaken
  have hfirst : ∀ action, t.ends t₀.table.newId action →
      (t.table.isPending t₀.table.newId = true ↔
        t₁.IsFirstRemover t₀.table.newId after action) :=
    fun _ => hsound₁.isPending_iff_isFirstRemover hfollows₁ hpending₁ hafter hissued htaken
  refine ⟨?_, ?_, ⟨(t.table.cancel t₀.table.newId).2, rfl, ?_⟩,
    ⟨(t.table.abandon t₀.table.newId).2, rfl, ?_⟩,
    fun action other htarget hswept => hsound₀.frame htarget hswept, ?_⟩
  · cases hremover : t₁.remover? t₀.table.newId after with
    | none =>
        rw [hremover] at hfate
        exact ⟨hfate, hfollows.content_of_isPending hsound.table hfate⟩
    | some found =>
        rw [hremover] at hfate
        exact hfate
  · intro outcome
    refine ⟨(t.table.resolve t₀.table.newId outcome).2, rfl, ?_⟩
    rw [← hfirst (.resolve t₀.table.newId outcome) rfl]
    exact hfollows.resolve_snd outcome
  · rw [cancel_snd]
    exact hfirst _ rfl
  · rw [abandon_snd]
    exact hfirst _ rfl
  · intro hpending action hends
    have hremoves := (removes_of_ends hsound.table hends).trans hpending
    have hgone := ((Bool.and_eq_true _ _).mp hremoves).2
    exact ⟨(hfirst action hends).mp hpending, (Bool.not_eq_true' _).mp hgone,
      hfollows.content_of_ends hsound.table hpending hends⟩

/-- The second call is swept before its reply comes, and finds a timeout. -/
theorem first_remover_decides_sweep :
    let before : List Action := [.register "device.name" none, .sleep 5]
    let after : List Action :=
      [.resolve 7 (.ok .null), .sleep 21, .sweep, .resolve 2 (.ok (.bool true)), .cancel 2]
    let t₀ := (start 1 1000).run before
    let t₁ := (t₀.perform (.register "device.model" (some 20))).1
    (start 1 1000).Completes (before ++ .register "device.model" (some 20) :: after) ∧
      (t₀.perform (.register "device.model" (some 20))).2 = .id 2 ∧
      t₁.receivers.get? 2 = some 1 ∧ 2 ∉ t₁.issued after ∧ .receive 2 ∉ after ∧
      (t₁.run after).table.content 1 = .filled (.error .timeout) ∧
      (∃ told, ((t₁.run after).perform (.abandon 2)).2 = .truth told ∧
        (told = true ↔ t₁.IsFirstRemover 2 after (.abandon 2))) := by
  intro before after t₀ t₁
  have hcompletes : (start 1 1000).Completes
      (before ++ .register "device.model" (some 20) :: after) := by decide
  have hid : (t₀.perform (.register "device.model" (some 20))).2 = .id 2 := by decide
  have hslot : t₁.receivers.get? 2 = some 1 := by decide
  have hissued : 2 ∉ t₁.issued after := by decide
  have htaken : .receive 2 ∉ after := by decide
  have h := first_remover_decides rfl rfl rfl hcompletes hid hslot hissued htaken
  exact ⟨hcompletes, hid, hslot, hissued, htaken, h.1.2.2, h.2.2.2.1⟩

end Trial

end GatewayClient
