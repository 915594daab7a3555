/-
Every call under way has a slot of its own, whatever id it has drawn.  So what has been put into its
slot stays there for it, whatever other jobs do meanwhile.
-/
import GatewayClient.Proofs.Client.Matching
import GatewayClient.Proofs.Correlation.Guarded

namespace GatewayClient

namespace Client

open Table (Guarded)

variable {c c' : Client} {i j : JobId} {call : Call} {stage stage' : CallStage} {table : Table}
  {sent : List Json} {slot : Nat}

/-- The calls under way have slots of their own, to which they listen. -/
structure Reserved (c : Client) : Prop where
  numbered : c.Numbered
  table : c.table.Guarded
  made : ∀ i id slot, c.entryAt i = some (id, slot) → slot < c.table.slots.length
  apart : ∀ i j id id' slot, c.entryAt i = some (id, slot) → c.entryAt j = some (id', slot) → i = j
  listens : ∀ i call stage slot, c.callAt i = some (call, stage) → stage.listened? = some slot →
    (c.table.slotAt slot).listening = true

theorem CallStep.guarded (h : CallStep c call stage table sent stage')
    (hguarded : c.table.Guarded) : table.Guarded := by
  cases h with
  | enter hparams => exact hguarded.register _ _ _
  | hand | queue | miss => exact hguarded
  | refuse => exact hguarded.abandon _
  | take => exact hguarded.takeOutcome _
  | expire => exact hguarded.dropListener _
  | cancel => exact hguarded.cancel _

/-- A step of a call takes a listener away from no slot but its own, and then for good. -/
theorem CallStep.listening (h : CallStep c call stage table sent stage')
    (hslot : slot < c.table.slots.length) :
    (table.slotAt slot).listening = (c.table.slotAt slot).listening ∨
      stage'.listened? = none ∧ ∃ id, stage.entryOf? = some (id, slot) := by
  cases h with
  | enter hparams =>
      left
      rw [Table.slotAt_register, if_neg (Nat.ne_of_lt hslot)]
  | hand | queue | miss => exact .inl rfl
  | refuse => exact .inl (Table.listening_abandon _ _ slot)
  | take => exact .inl (Table.listening_takeOutcome _ _ slot)
  | @expire id slot' deadline =>
      by_cases heq : slot' = slot
      · exact .inr ⟨rfl, id, heq ▸ rfl⟩
      · left
        rw [Table.dropListener, Table.slotAt_modifySlot_of_ne _ _ heq]
  | cancel => exact .inl (Table.listening_cancel _ _ slot)

/-- A step of a call leaves alone what is in the slots of others. -/
theorem CallStep.slotAt (h : CallStep c call stage table sent stage') (hguarded : c.table.Guarded)
    (hslot : slot < c.table.slots.length) (hcontent : (c.table.slotAt slot).content ≠ .empty)
    (hother : ∀ id, stage.entryOf? ≠ some (id, slot)) :
    table.slotAt slot = c.table.slotAt slot := by
  cases h with
  | enter hparams => rw [Table.slotAt_register, if_neg (Nat.ne_of_lt hslot)]
  | hand | queue | miss => rfl
  | refuse =>
      rw [Table.slotAt_abandon]
      exact hguarded.slotAt_conclude hcontent _ _
  | @take id slot' deadline outcome hfilled =>
      have hne : slot' ≠ slot := fun heq => hother id (heq ▸ rfl)
      rw [Table.takeOutcome, hfilled]
      exact Table.slotAt_modifySlot_of_ne _ _ hne
  | @expire id slot' deadline =>
      have hne : slot' ≠ slot := fun heq => hother id (heq ▸ rfl)
      exact Table.slotAt_modifySlot_of_ne _ _ hne
  | cancel =>
      rw [Table.slotAt_cancel]
      exact hguarded.slotAt_conclude hcontent _ _

theorem listening_tableAfter (c : Client) (r : Response) (slot : Nat) :
    ((c.tableAfter r).slotAt slot).listening = (c.table.slotAt slot).listening := by
  rw [tableAfter]
  split
  · exact Table.listening_resolve _ _ _ slot
  · rfl

theorem guarded_tableAfter (h : c.table.Guarded) (r : Response) : (c.tableAfter r).Guarded := by
  rw [tableAfter]
  split
  · exact h.resolve _ _
  · exact h

namespace Reserved

theorem ofSettings (settings : Settings) (link : Link) : (ofSettings settings link).Reserved where
  numbered := numbered_ofSettings settings link
  table := .of_new rfl
  made := by
    intro i id slot hentry
    cases hentry
  apart := by
    intro i j id id' slot hentry
    cases hentry
  listens := by
    intro i call stage slot hcall
    cases hcall

/-- The calls are as they were, and their slots are listened to as they were. -/
theorem of_calls (h : c.Reserved) (hnumbered : c'.Numbered) (htable : c'.table.Guarded)
    (hlength : c'.table.slots.length = c.table.slots.length)
    (hcalls : ∀ i, c'.callAt i = c.callAt i)
    (hlistening : ∀ slot, (c'.table.slotAt slot).listening = (c.table.slotAt slot).listening) :
    c'.Reserved where
  numbered := hnumbered
  table := htable
  made := by
    intro i id slot hentry
    rw [hlength]
    exact h.made i id slot (entryAt_congr (hcalls i) ▸ hentry)
  apart := by
    intro i j id id' slot hentry hentry'
    exact h.apart i j id id' slot (entryAt_congr (hcalls i) ▸ hentry)
      (entryAt_congr (hcalls j) ▸ hentry')
  listens := by
    intro i call stage slot hcall hlistened
    rw [hlistening]
    exact h.listens i call stage slot (hcalls i ▸ hcall) hlistened

/-- The call of one job has made a step or is over, and keeps its entry if it has one still. -/
theorem of_own (h : c.Reserved) (hnumbered : c'.Numbered) (htable : c'.table.Guarded)
    (hlength : c.table.slots.length ≤ c'.table.slots.length) {id : UInt64}
    (hentry : c.entryAt i = some (id, slot))
    (hothers : ∀ j, j ≠ i → c'.callAt j = c.callAt j)
    (hown : ∀ entry, c'.entryAt i = some entry → entry = (id, slot))
    (hlistens : ∀ call stage slot, c'.callAt i = some (call, stage) →
      stage.listened? = some slot → (c'.table.slotAt slot).listening = true)
    (hlistening : ∀ other, other ≠ slot → other < c.table.slots.length →
      (c'.table.slotAt other).listening = (c.table.slotAt other).listening) : c'.Reserved := by
  have hbefore : ∀ j entry, c'.entryAt j = some entry → c.entryAt j = some entry := by
    intro j entry hj
    by_cases heq : j = i
    · subst heq
      rw [hentry, hown entry hj]
    · rwa [entryAt_congr (hothers j heq)] at hj
  refine ⟨hnumbered, htable, ?_, ?_, ?_⟩
  · intro j id' slot' hj
    exact Nat.lt_of_lt_of_le (h.made j id' slot' (hbefore j _ hj)) hlength
  · intro j k id' id'' slot' hj hk
    exact h.apart j k id' id'' slot' (hbefore j _ hj) (hbefore k _ hk)
  · intro j call stage slot' hcall hlistened
    by_cases heq : j = i
    · subst heq
      exact hlistens call stage slot' hcall hlistened
    · rw [hothers j heq] at hcall
      obtain ⟨id', hentry'⟩ := CallStage.entryOf?_of_listened? hlistened
      have hj : c.entryAt j = some (id', slot') := (entryAt_of_callAt hcall).trans hentry'
      rw [hlistening slot' ?_ (h.made j id' slot' hj)]
      · exact h.listens j call stage slot' hcall hlistened
      · rintro rfl
        exact heq (h.apart j i id' id slot' hj hentry)

/-- A call that enters the table gets a new slot. -/
theorem of_enter (h : c.Reserved) (hnumbered : c'.Numbered) {method : String}
    {timeout : Option Nat} {now : Nat} {id : UInt64}
    (htable : c'.table = (c.table.register method timeout now).1)
    (hothers : ∀ j, j ≠ i → c'.callAt j = c.callAt j)
    (hown : c'.callAt i = some (call, .entered id c.table.slots.length)) : c'.Reserved := by
  have hlength : c'.table.slots.length = c.table.slots.length + 1 := by
    rw [htable, Table.register, List.length_append, List.length_singleton]
  have hnew : c'.entryAt i = some (id, c.table.slots.length) := entryAt_of_callAt hown
  have hentries : ∀ j id' slot, c'.entryAt j = some (id', slot) →
      j = i ∧ slot = c.table.slots.length ∨ c.entryAt j = some (id', slot) := by
    intro j id' slot hj
    by_cases heq : j = i
    · subst heq
      rw [hnew] at hj
      cases hj
      exact Or.inl ⟨rfl, rfl⟩
    · rw [entryAt_congr (hothers j heq)] at hj
      exact Or.inr hj
  refine ⟨hnumbered, ?_, ?_, ?_, ?_⟩
  · rw [htable]
    exact h.table.register method timeout now
  · intro j id' slot hj
    rw [hlength]
    rcases hentries j id' slot hj with ⟨-, rfl⟩ | hold
    · exact Nat.lt_succ_self _
    · exact Nat.lt_succ_of_lt (h.made j id' slot hold)
  · intro j k id' id'' slot hj hk
    rcases hentries j id' slot hj with ⟨rfl, rfl⟩ | hold <;>
      rcases hentries k id'' _ hk with ⟨rfl, hslot⟩ | hold'
    · rfl
    · exact absurd (h.made k id'' _ hold') (Nat.lt_irrefl _)
    · exact absurd (h.made j id' _ hold) (hslot ▸ Nat.lt_irrefl _)
    · exact h.apart j k id' id'' slot hold hold'
  · intro j call' stage slot hcall hlistened
    rw [htable, Table.slotAt_register]
    by_cases heq : j = i
    · subst heq
      rw [hown] at hcall
      cases hcall
      cases hlistened
      rw [if_pos rfl]
      rfl
    · rw [hothers j heq] at hcall
      obtain ⟨id', hentry⟩ := CallStage.entryOf?_of_listened? hlistened
      rw [if_neg (Nat.ne_of_lt (h.made j id' slot ((entryAt_of_callAt hcall).trans hentry)))]
      exact h.listens j call' stage slot hcall hlistened

/-- A call that has entered the table makes a step. -/
theorem of_step (h : c.Reserved) (hnumbered : c'.Numbered) (hfresh : stage ≠ .fresh)
    (hcall : c.callAt i = some (call, stage)) (hstep : CallStep c call stage table sent stage')
    (hseen : Seen c c' table sent (Function.update c.callAt i (some (call, stage')))) :
    c'.Reserved := by
  obtain ⟨id, slot, hentry⟩ := entryOf?_of_callAt hcall
  have hat : c.entryAt i = some (id, slot) := (entryAt_of_callAt hcall).trans hentry
  have hlistening : ∀ {slot'}, slot' < c.table.slots.length → slot' ≠ slot ∨
      stage'.listened? = some slot' →
      (table.slotAt slot').listening = (c.table.slotAt slot').listening := by
    intro slot' hmade hcase
    rcases hstep.listening hmade with hsame | ⟨hnone, id', hentry'⟩
    · exact hsame
    · rw [hentry] at hentry'
      cases hentry'
      rcases hcase with hne | hlistened
      · exact absurd rfl hne
      · rw [hnone] at hlistened
        cases hlistened
  refine h.of_own hnumbered ?_ ?_ hat hseen.others ?_ ?_ ?_
  · rw [hseen.table]
    exact hstep.guarded h.table
  · rw [hseen.table]
    exact hstep.slots_length_le
  · intro entry hown
    rw [entryAt_of_callAt hseen.own] at hown
    obtain ⟨id', slot', hentry', ⟨rfl, -⟩ | hsame⟩ := hstep.entryOf?_eq
    · exact absurd rfl hfresh
    · rw [hentry'] at hown
      rw [hentry] at hsame
      cases hown
      exact (Option.some.inj hsame).symm
  · intro call' stage'' slot' hown hlistened
    rw [hseen.own] at hown
    cases hown
    obtain ⟨hlistened', -⟩ := hstep.listened hlistened hfresh
    obtain ⟨id', hentry'⟩ := CallStage.entryOf?_of_listened? hlistened'
    have hmade := h.made i id' slot' ((entryAt_of_callAt hcall).trans hentry')
    rw [hseen.table, hlistening hmade (.inr hlistened)]
    exact h.listens i call stage slot' hcall hlistened'
  · intro other hne hmade
    rw [hseen.table]
    exact hlistening hmade (.inl hne)

/-- Every move leaves each call its slot. -/
theorem move (h : c.Reserved) (m : Move) : (c.move m).Reserved := by
  have hnumbered := h.numbered.move m
  cases callCase h.numbered m with
  | quiet hreply hseen =>
      refine h.of_calls hnumbered ?_ ?_ hseen.calls ?_
      · exact hseen.table ▸ h.table
      · rw [hseen.table]
      · rw [hseen.table]
        exact fun _ => rfl
  | @reply r hreply hseen =>
      refine h.of_calls hnumbered ?_ ?_ hseen.calls ?_
      · exact hseen.table ▸ guarded_tableAfter h.table r
      · rw [hseen.table, slots_length_tableAfter]
      · rw [hseen.table]
        exact listening_tableAfter c r
  | sweep hm hreply hjob hseen =>
      refine h.of_calls hnumbered ?_ ?_ hseen.calls ?_
      · exact hseen.table ▸ h.table.removeIfExpired _ _
      · rw [hseen.table, Table.slots_length_removeIfExpired]
      · rw [hseen.table]
        exact Table.listening_removeIfExpired _ _ _
  | @step i call stage stage' table sent hm hreply hcall hstep hsent hseen =>
      rcases hcall with ⟨rfl, -⟩ | hcall
      · cases hstep with
        | enter hparams => exact h.of_enter hnumbered hseen.table hseen.others hseen.own
        | hand hunsent hentry => cases hentry
        | refuse hunsent hentry => cases hentry
      · refine h.of_step hnumbered ?_ hcall hstep hseen
        rintro rfl
        obtain ⟨id, slot, hentry⟩ := entryOf?_of_callAt hcall
        cases hentry
  | @leave i call stage id slot hm hreply hcall hentry hsent hseen =>
      refine h.of_own hnumbered ?_ ?_ ((entryAt_of_callAt hcall).trans hentry) hseen.others ?_ ?_ ?_
      · exact hseen.table ▸ h.table.leave id slot
      · exact Nat.le_of_eq (by rw [hseen.table, Table.slots_length_leave])
      · intro entry hown
        rw [entryAt, hseen.own] at hown
        cases hown
      · intro call' stage' slot' hown
        rw [hseen.own] at hown
        cases hown
      · intro other hne _
        rw [hseen.table, Table.leave, Table.dropListener,
          Table.slotAt_modifySlot_of_ne _ _ (Ne.symm hne)]
        exact Table.listening_abandon _ _ other

theorem run (h : c.Reserved) (moves : List Move) : (c.run moves).Reserved := by
  induction moves generalizing c with
  | nil => exact h
  | cons m rest ih => exact ih (h.move m)

/-- What is in the slot of a call stays there while others make their moves. -/
theorem slotAt_of_others (h : c.Reserved) {id : UInt64} (hentry : c.entryAt i = some (id, slot))
    (hcontent : (c.table.slotAt slot).content ≠ .empty) {m : Move} (hadvance : m ≠ .advance i)
    (hdrop : m ≠ .drop i) : (c.move m).table.slotAt slot = c.table.slotAt slot := by
  have hmade := h.made i id slot hentry
  cases callCase h.numbered m with
  | quiet hreply hseen => rw [hseen.table]
  | @reply r hreply hseen =>
      rw [hseen.table, tableAfter]
      split
      · rw [Table.slotAt_resolve]
        exact h.table.slotAt_conclude hcontent _ _
      · rfl
  | sweep hm hreply hjob hseen =>
      rw [hseen.table]
      exact h.table.slotAt_removeIfExpired hcontent _ _
  | @step j call stage stage' table sent hm hreply hcall hstep hsent hseen =>
      rw [hseen.table]
      apply hstep.slotAt h.table hmade hcontent
      intro id' hentry'
      rcases hcall with ⟨rfl, -⟩ | hcall
      · cases hentry'
      · obtain rfl := h.apart i j id id' slot hentry ((entryAt_of_callAt hcall).trans hentry')
        exact hadvance hm
  | @leave j call stage id' slot' hm hreply hcall hentry' hsent hseen =>
      have hj : c.entryAt j = some (id', slot') := (entryAt_of_callAt hcall).trans hentry'
      have hne : slot' ≠ slot := by
        rintro rfl
        obtain rfl := h.apart i j id id' slot' hentry hj
        exact hm.elim (fun hm => hadvance hm.1) hdrop
      rw [hseen.table, Table.leave, Table.dropListener, Table.slotAt_modifySlot_of_ne _ _ hne,
        Table.slotAt_abandon]
      exact h.table.slotAt_conclude hcontent _ _

end Reserved

end Client

end GatewayClient
