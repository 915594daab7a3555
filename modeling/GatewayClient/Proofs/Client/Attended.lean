/-
Every entry of the table is held by a call under way that has not got its outcome, whatever id it
has drawn.  So when a call has its outcome, or is no more, nothing of it is left in the table.
-/
import GatewayClient.Proofs.Client.Reserved

namespace GatewayClient

/-- Whether a call has got its outcome. -/
def CallStage.isOver : CallStage → Bool
  | .over _ _ _ => true
  | _ => false

namespace Client

variable {c c' : Client} {i : JobId} {call : Call} {stage stage' : CallStage} {table : Table}
  {sent : List Json} {id : UInt64} {slot : Nat}

/-- The call of job `i` has the entry of this id and slot and has not got its outcome. -/
def Holds (c : Client) (i : JobId) (id : UInt64) (slot : Nat) : Prop :=
  ∃ call stage, c.callAt i = some (call, stage) ∧ stage.entryOf? = some (id, slot) ∧
    stage.isOver = false

/-- Every entry of the table is held, and nobody listens for a call that is past its deadline. -/
structure Attended (c : Client) : Prop where
  reserved : c.Reserved
  held : ∀ id p, c.table.pending.get? id = some p → ∃ i, c.Holds i id p.slot
  unheard : ∀ i call id slot, c.callAt i = some (call, .overdue id slot) →
    (c.table.slotAt slot).listening = false

theorem Holds.congr (h : c.Holds i id slot) (hcall : c'.callAt i = c.callAt i) :
    c'.Holds i id slot := by
  obtain ⟨call, stage, hat, hrest⟩ := h
  exact ⟨call, stage, hcall.trans hat, hrest⟩

theorem Holds.entryAt (h : c.Holds i id slot) : c.entryAt i = some (id, slot) := by
  obtain ⟨call, stage, hat, hentry, -⟩ := h
  exact (entryAt_of_callAt hat).trans hentry

/-- No step of a call gives a slot its listener back. -/
theorem CallStep.unheard (h : CallStep c call stage table sent stage')
    (hmade : slot < c.table.slots.length) (hdeaf : (c.table.slotAt slot).listening = false) :
    (table.slotAt slot).listening = false := by
  rcases h.listening hmade with hsame | ⟨-, id, hentry⟩
  · rw [hsame, hdeaf]
  · cases h with
    | enter hparams => cases hentry
    | hand | queue | miss => exact hdeaf
    | refuse => rw [Table.listening_abandon, hdeaf]
    | take => rw [Table.listening_takeOutcome, hdeaf]
    | expire =>
        cases hentry
        rw [Table.dropListener, Table.slotAt_modifySlot _ _ _ _ hmade, if_pos rfl]
        rfl
    | cancel => rw [Table.listening_cancel, hdeaf]

/-- A call that is past its deadline after a step has ceased to listen with it. -/
theorem CallStep.unheard_own (h : CallStep c call stage table sent (.overdue id slot))
    (hmade : slot < c.table.slots.length) : (table.slotAt slot).listening = false := by
  cases h with
  | expire =>
      rw [Table.dropListener, Table.slotAt_modifySlot _ _ _ _ hmade, if_pos rfl]
      rfl

/-- A call that has an entry after its step holds it still, or has just entered it. -/
theorem CallStep.holds (h : CallStep c call stage table sent stage') (hguarded : c.table.Guarded)
    {p : PendingCall} (hget : table.pending.get? id = some p) :
    (stage = .fresh ∧ stage' = .entered id p.slot) ∨
      c.table.pending.get? id = some p ∧
        (stage.entryOf? = some (id, p.slot) →
          stage'.entryOf? = some (id, p.slot) ∧ stage'.isOver = false) := by
  cases h with
  | enter hparams =>
      rw [Table.get?_register] at hget
      split at hget
      · next hid =>
          cases hget
          exact .inl ⟨rfl, by rw [hid]⟩
      · refine .inr ⟨hget, fun hentry => ?_⟩
        cases hentry
  | hand hunsent hentry =>
      refine .inr ⟨hget, fun hentry' => ?_⟩
      rw [hentry] at hentry'
      cases hentry'
      exact ⟨rfl, rfl⟩
  | queue => exact .inr ⟨hget, fun hentry => ⟨hentry, rfl⟩⟩
  | refuse hunsent hentry =>
      rw [Table.get?_abandon] at hget
      split at hget
      · cases hget
      · next hne =>
          refine .inr ⟨hget, fun hentry' => ?_⟩
          rw [hentry] at hentry'
          cases hentry'
          exact absurd rfl hne
  | @take id' slot' deadline outcome hcontent =>
      rw [Table.pending_takeOutcome] at hget
      refine .inr ⟨hget, fun hentry => ?_⟩
      cases hentry
      rw [Table.content_eq, hguarded.empty id p hget] at hcontent
      cases hcontent
  | miss hcontent =>
      refine .inr ⟨hget, fun hentry => ?_⟩
      cases hentry
      rw [Table.content_eq, hguarded.empty id p hget] at hcontent
      cases hcontent
  | expire => exact .inr ⟨hget, fun hentry => ⟨hentry, rfl⟩⟩
  | cancel =>
      rw [Table.get?_cancel] at hget
      split at hget
      · cases hget
      · next hne =>
          refine .inr ⟨hget, fun hentry => ?_⟩
          cases hentry
          exact absurd rfl hne

namespace Attended

theorem ofSettings (settings : Settings) (link : Link) : (ofSettings settings link).Attended where
  reserved := .ofSettings settings link
  held := by
    intro id p hget
    cases hget
  unheard := by
    intro i call id slot hcall
    cases hcall

/-- The calls are as they were, and there are no entries but those of before. -/
theorem of_calls (h : c.Attended) (hreserved : c'.Reserved)
    (hcalls : ∀ i, c'.callAt i = c.callAt i)
    (hfewer : ∀ id p, c'.table.pending.get? id = some p → c.table.pending.get? id = some p)
    (hlistening : ∀ slot, (c'.table.slotAt slot).listening = (c.table.slotAt slot).listening) :
    c'.Attended where
  reserved := hreserved
  held := by
    intro id p hget
    obtain ⟨i, hholds⟩ := h.held id p (hfewer id p hget)
    exact ⟨i, hholds.congr (hcalls i)⟩
  unheard := by
    intro i call id slot hcall
    rw [hlistening]
    exact h.unheard i call id slot (hcalls i ▸ hcall)

theorem get?_of_tableAfter {r : Response} {p : PendingCall}
    (hget : (c.tableAfter r).pending.get? id = some p) : c.table.pending.get? id = some p := by
  rw [tableAfter] at hget
  split at hget
  · rw [Table.get?_resolve] at hget
    split at hget
    · cases hget
    · exact hget
  · exact hget

theorem get?_of_removeIfExpired {t : Table} {now : Nat} {other : UInt64} {p : PendingCall}
    (hget : (t.removeIfExpired now other).1.pending.get? id = some p) :
    t.pending.get? id = some p := by
  rw [Table.removeIfExpired_eq] at hget
  split at hget
  · rw [Table.get?_cancel] at hget
    split at hget
    · cases hget
    · exact hget
  · exact hget

theorem get?_of_leave {t : Table} {other : UInt64} {p : PendingCall}
    (hget : (t.leave other slot).pending.get? id = some p) :
    other ≠ id ∧ t.pending.get? id = some p := by
  change (t.abandon other).1.pending.get? id = some p at hget
  rw [Table.get?_abandon] at hget
  split at hget
  · cases hget
  · next hne => exact ⟨hne, hget⟩

/-- A step of a call keeps what others hold, and the call holds what it enters. -/
theorem of_step (h : c.Attended) (hreserved : c'.Reserved)
    (hcall : (stage = .fresh ∧ c.callAt i = none) ∨ c.callAt i = some (call, stage))
    (hstep : CallStep c call stage table sent stage') {sent' : List Json}
    (hseen : Seen c c' table sent' (Function.update c.callAt i (some (call, stage')))) :
    c'.Attended := by
  refine ⟨hreserved, ?_, ?_⟩
  · intro id p hget
    rw [hseen.table] at hget
    rcases hstep.holds h.reserved.table hget with ⟨-, rfl⟩ | ⟨hold, hown⟩
    · exact ⟨i, call, _, hseen.own, rfl, rfl⟩
    · obtain ⟨j, hholds⟩ := h.held id p hold
      by_cases hj : j = i
      · subst hj
        obtain ⟨call', stage₁, hat, hentry, -⟩ := hholds
        rcases hcall with ⟨-, hnone⟩ | hcall
        · rw [hnone] at hat
          cases hat
        · rw [hcall] at hat
          cases hat
          exact ⟨j, call, stage', hseen.own, hown hentry⟩
      · exact ⟨j, hholds.congr (hseen.others j hj)⟩
  · intro j call' id slot hat
    rw [hseen.table]
    by_cases hj : j = i
    · subst hj
      rw [hseen.own] at hat
      cases hat
      obtain ⟨id', slot', hentry', ⟨rfl, -⟩ | hentry⟩ := hstep.entryOf?_eq
      · cases hstep
      · cases hentry'
        rcases hcall with ⟨rfl, -⟩ | hcall
        · cases hentry
        · exact hstep.unheard_own
            (h.reserved.made j id slot ((entryAt_of_callAt hcall).trans hentry))
    · rw [hseen.others j hj] at hat
      exact hstep.unheard (h.reserved.made j id slot (entryAt_of_callAt hat))
        (h.unheard j call' id slot hat)

/-- A call that leaves takes its own entry out of the table and no other. -/
theorem of_leave (h : c.Attended) (hreserved : c'.Reserved) (hat : c.entryAt i = some (id, slot))
    (hseen : Seen c c' (c.table.leave id slot) sent (Function.update c.callAt i none)) :
    c'.Attended := by
  refine ⟨hreserved, ?_, ?_⟩
  · intro id' p hget
    rw [hseen.table] at hget
    obtain ⟨hne, hold⟩ := get?_of_leave hget
    obtain ⟨j, hholds⟩ := h.held id' p hold
    refine ⟨j, hholds.congr (hseen.others j ?_)⟩
    rintro rfl
    rw [hholds.entryAt] at hat
    cases hat
    exact hne rfl
  · intro j call' id' slot' hat'
    by_cases hj : j = i
    · subst hj
      rw [hseen.own] at hat'
      cases hat'
    · rw [hseen.others j hj] at hat'
      have hne : slot ≠ slot' := by
        rintro rfl
        exact hj (h.reserved.apart j i id' id slot (entryAt_of_callAt hat') hat)
      rw [hseen.table, Table.leave, Table.dropListener, Table.slotAt_modifySlot_of_ne _ _ hne,
        Table.listening_abandon]
      exact h.unheard j call' id' slot' hat'

/-- Every entry is held after every move. -/
theorem move (h : c.Attended) (m : Move) : (c.move m).Attended := by
  have hreserved := h.reserved.move m
  cases callCase h.reserved.numbered m with
  | quiet hreply hseen =>
      refine h.of_calls hreserved hseen.calls ?_ ?_
      · rw [hseen.table]
        exact fun _ _ => id
      · rw [hseen.table]
        exact fun _ => rfl
  | @reply r hreply hseen =>
      refine h.of_calls hreserved hseen.calls ?_ ?_
      · rw [hseen.table]
        exact fun _ _ => get?_of_tableAfter
      · rw [hseen.table]
        exact listening_tableAfter c r
  | sweep hm hreply hjob hseen =>
      refine h.of_calls hreserved hseen.calls ?_ ?_
      · rw [hseen.table]
        exact fun _ _ => get?_of_removeIfExpired
      · rw [hseen.table]
        exact Table.listening_removeIfExpired _ _ _
  | step hm hreply hcall hstep hsent hseen => exact h.of_step hreserved hcall hstep hseen
  | leave hm hreply hcall hentry hsent hseen =>
      exact h.of_leave hreserved ((entryAt_of_callAt hcall).trans hentry) hseen

theorem run (h : c.Attended) (moves : List Move) : (c.run moves).Attended := by
  induction moves generalizing c with
  | nil => exact h
  | cons m rest ih => exact ih (h.move m)

end Attended

end Client

end GatewayClient
