/-
Every call under way has an entry of its own: an id and a slot that no other call has, and as long
as it listens, a slot that is not closed.  Every move keeps it so, as long as the ids last.
-/
import GatewayClient.Proofs.Client.CallMove
import GatewayClient.Proofs.Correlation.Sequential

namespace GatewayClient

namespace CallStage

/-- The slot whose outcome a call will take. -/
def listened? : CallStage → Option Nat
  | .entered _ slot | .crowded _ slot | .waiting _ slot _ => some slot
  | .fresh | .overdue _ _ | .over _ _ _ => none

theorem entryOf?_of_unsent? {stage : CallStage} {id : UInt64} (hunsent : stage.unsent? = some id) :
    ∃ slot, stage.entryOf? = some (id, slot) ∧ stage.listened? = some slot := by
  cases stage with
  | entered id' slot => cases hunsent; exact ⟨slot, rfl, rfl⟩
  | crowded id' slot => cases hunsent; exact ⟨slot, rfl, rfl⟩
  | fresh | waiting | overdue | «over» => cases hunsent

theorem entryOf?_of_listened? {stage : CallStage} {slot : Nat}
    (hlistened : stage.listened? = some slot) : ∃ id, stage.entryOf? = some (id, slot) := by
  cases stage with
  | entered id slot' => cases hlistened; exact ⟨id, rfl⟩
  | crowded id slot' => cases hlistened; exact ⟨id, rfl⟩
  | waiting id slot' deadline => cases hlistened; exact ⟨id, rfl⟩
  | fresh | overdue | «over» => cases hlistened

end CallStage

namespace Client

open Table (slotId Sequential Touches Gives)

/-- The id and the slot of the call that a job is in. -/
def entryAt (c : Client) (i : JobId) : Option (UInt64 × Nat) :=
  (c.callAt i).bind fun call => call.2.entryOf?

theorem entryAt_of_callAt {c : Client} {i : JobId} {call : Call} {stage : CallStage}
    (hcall : c.callAt i = some (call, stage)) : c.entryAt i = stage.entryOf? := by
  rw [entryAt, hcall, Option.bind_some]

theorem entryAt_congr {c c' : Client} {i : JobId} (hcall : c'.callAt i = c.callAt i) :
    c'.entryAt i = c.entryAt i := by
  rw [entryAt, hcall, entryAt]

/-- The calls under way and the table agree. -/
structure Matched (c : Client) : Prop where
  numbered : c.Numbered
  table : c.table.Sequential
  entry : ∀ i id slot, c.entryAt i = some (id, slot) →
    id = slotId slot ∧ slot < c.table.slots.length
  apart : ∀ i j id id' slot, c.entryAt i = some (id, slot) → c.entryAt j = some (id', slot) → i = j
  listens : ∀ i call stage slot, c.callAt i = some (call, stage) → stage.listened? = some slot →
    (c.table.slotAt slot).listening = true ∧ (c.table.slotAt slot).content ≠ .closed

/-- A step of a call that has entered the table touches its own slot only. -/
theorem CallStep.touches {c : Client} {call : Call} {stage stage' : CallStage} {table : Table}
    {sent : List Json} (h : CallStep c call stage table sent stage') (hseq : c.table.Sequential)
    (hroom : c.table.slots.length < UInt64.size) {slot : Nat}
    (hentry : stage.entryOf? = some (slotId slot, slot)) (hslot : slot < c.table.slots.length) :
    Touches c.table table slot := by
  cases h with
  | enter hparams => cases hentry
  | hand hunsent hentry' => exact .refl hseq slot
  | queue => exact .refl hseq slot
  | refuse hunsent hentry' =>
      rw [hentry] at hentry'
      cases hentry'
      exact .abandon hseq hroom hslot
  | take hcontent =>
      cases hentry
      exact .takeOutcome hseq hcontent
  | miss hcontent => exact .refl hseq slot
  | expire hcontent hdeadline =>
      cases hentry
      exact .dropListener hseq slot
  | cancel =>
      cases hentry
      exact .cancel hseq hroom hslot

/-- A call that listens after a step has listened before, unless it has just entered the table, and
its step was to hand its frame over or to queue. -/
theorem CallStep.listened {c : Client} {call : Call} {stage stage' : CallStage} {table : Table}
    {sent : List Json} (h : CallStep c call stage table sent stage') {slot : Nat}
    (hlistened : stage'.listened? = some slot) (hfresh : stage ≠ .fresh) :
    stage.listened? = some slot ∧ table = c.table := by
  cases h with
  | enter hparams => exact absurd rfl hfresh
  | hand hunsent hentry =>
      obtain ⟨slot', hentry', hlistened'⟩ := CallStage.entryOf?_of_unsent? hunsent
      rw [hentry] at hentry'
      cases hentry'
      cases hlistened
      exact ⟨hlistened', rfl⟩
  | queue => exact ⟨hlistened, rfl⟩
  | refuse | take | miss | expire | cancel => cases hlistened

namespace Matched

variable {c c' : Client}

theorem ofSettings (settings : Settings) (link : Link) : (ofSettings settings link).Matched where
  numbered := numbered_ofSettings settings link
  table := .of_new rfl rfl rfl
  entry := by
    intro i id slot hentry
    cases hentry
  apart := by
    intro i j id id' slot hentry
    cases hentry
  listens := by
    intro i call stage slot hcall
    cases hcall

/-- No two calls under way have the same id. -/
theorem eq_of_id (h : c.Matched) (hroom : c.table.slots.length < UInt64.size) {i j : JobId}
    {id : UInt64} {slot slot' : Nat} (hi : c.entryAt i = some (id, slot))
    (hj : c.entryAt j = some (id, slot')) : i = j := by
  obtain ⟨hid, hslot⟩ := h.entry i id slot hi
  obtain ⟨hid', hslot'⟩ := h.entry j id slot' hj
  have hsame := Table.slotId_inj (by omega) (by omega) (hid.symm.trans hid')
  subst hsame
  exact h.apart i j id id slot hi hj

/-- Outcomes that are given to slots. -/
theorem of_gives (h : c.Matched) (hnumbered : c'.Numbered) (hgives : Gives c.table c'.table)
    (hcalls : ∀ i, c'.callAt i = c.callAt i) : c'.Matched where
  numbered := hnumbered
  table := hgives.sequential
  entry := by
    intro i id slot hentry
    rw [entryAt_congr (hcalls i)] at hentry
    rw [hgives.length]
    exact h.entry i id slot hentry
  apart := by
    intro i j id id' slot hentry hentry'
    rw [entryAt_congr (hcalls _)] at hentry hentry'
    exact h.apart i j id id' slot hentry hentry'
  listens := by
    intro i call stage slot hcall hlistened
    rw [hcalls i] at hcall
    obtain ⟨hlistening, hopen⟩ := h.listens i call stage slot hcall hlistened
    obtain ⟨id, hentry⟩ := CallStage.entryOf?_of_listened? hlistened
    have hslot := (h.entry i id slot ((entryAt_of_callAt hcall).trans hentry)).2
    rcases hgives.slots slot hslot with hsame | ⟨hempty, outcome, hfilled⟩
    · rw [hsame]
      exact ⟨hlistening, hopen⟩
    · rw [hfilled, Slot.fill, if_pos hlistening]
      exact ⟨hlistening, by simp⟩

/-- Operations on the call of one job, which keeps its entry or loses it. -/
theorem of_touches (h : c.Matched) (hnumbered : c'.Numbered) {i : JobId} {id : UInt64} {slot : Nat}
    (hentry : c.entryAt i = some (id, slot)) (htouches : Touches c.table c'.table slot)
    (hothers : ∀ j, j ≠ i → c'.callAt j = c.callAt j)
    (hown : ∀ entry, c'.entryAt i = some entry → entry = (id, slot))
    (hlistens : ∀ call stage slot, c'.callAt i = some (call, stage) →
      stage.listened? = some slot →
      (c'.table.slotAt slot).listening = true ∧ (c'.table.slotAt slot).content ≠ .closed) :
    c'.Matched := by
  have hbefore : ∀ j entry, c'.entryAt j = some entry → c.entryAt j = some entry := by
    intro j entry hj
    by_cases heq : j = i
    · subst heq
      rw [hentry, hown entry hj]
    · rwa [entryAt_congr (hothers j heq)] at hj
  refine ⟨hnumbered, htouches.sequential, ?_, ?_, ?_⟩
  · intro j id' slot' hj
    rw [htouches.length]
    exact h.entry j id' slot' (hbefore j _ hj)
  · intro j k id' id'' slot' hj hk
    exact h.apart j k id' id'' slot' (hbefore j _ hj) (hbefore k _ hk)
  · intro j call stage slot' hcall hlistened
    by_cases heq : j = i
    · subst heq
      exact hlistens call stage slot' hcall hlistened
    · rw [hothers j heq] at hcall
      obtain ⟨id', hentry'⟩ := CallStage.entryOf?_of_listened? hlistened
      have hj : c.entryAt j = some (id', slot') := (entryAt_of_callAt hcall).trans hentry'
      have hne : slot' ≠ slot := by
        rintro rfl
        exact heq (h.apart j i id' id slot' hj hentry)
      rw [htouches.others slot' (h.entry j id' slot' hj).2 hne]
      exact h.listens j call stage slot' hcall hlistened

/-- A call that enters the table. -/
theorem of_enter (h : c.Matched) (hnumbered : c'.Numbered) {i : JobId} {call : Call}
    {method : String} {timeout : Option Nat} {now : Nat}
    (hroom : c.table.slots.length + 1 < UInt64.size)
    (htable : c'.table = (c.table.register method timeout now).1)
    (hothers : ∀ j, j ≠ i → c'.callAt j = c.callAt j)
    (hown : c'.callAt i = some (call, .entered c.table.newId c.table.slots.length)) :
    c'.Matched := by
  have hlength : c'.table.slots.length = c.table.slots.length + 1 := by
    rw [htable, Table.register, List.length_append, List.length_singleton]
  have hnew : c'.entryAt i = some (c.table.newId, c.table.slots.length) := entryAt_of_callAt hown
  have hentries : ∀ j id slot, c'.entryAt j = some (id, slot) →
      (j = i ∧ id = c.table.newId ∧ slot = c.table.slots.length) ∨
        (j ≠ i ∧ c.entryAt j = some (id, slot)) := by
    intro j id slot hj
    by_cases heq : j = i
    · subst heq
      rw [hnew] at hj
      cases hj
      exact Or.inl ⟨rfl, rfl, rfl⟩
    · rw [entryAt_congr (hothers j heq)] at hj
      exact Or.inr ⟨heq, hj⟩
  refine ⟨hnumbered, ?_, ?_, ?_, ?_⟩
  · rw [htable]
    exact h.table.register method timeout now hroom
  · intro j id slot hj
    rw [hlength]
    rcases hentries j id slot hj with ⟨-, rfl, rfl⟩ | ⟨-, hold⟩
    · exact ⟨h.table.newId_eq hroom, Nat.lt_succ_self _⟩
    · obtain ⟨hid, hslot⟩ := h.entry j id slot hold
      exact ⟨hid, Nat.lt_succ_of_lt hslot⟩
  · intro j k id id' slot hj hk
    rcases hentries j id slot hj with ⟨rfl, -, rfl⟩ | ⟨-, hold⟩
    · rcases hentries k id' _ hk with ⟨rfl, -, -⟩ | ⟨-, hold'⟩
      · rfl
      · exact absurd (h.entry k id' _ hold').2 (Nat.lt_irrefl _)
    · rcases hentries k id' _ hk with ⟨-, -, rfl⟩ | ⟨-, hold'⟩
      · exact absurd (h.entry j id _ hold).2 (Nat.lt_irrefl _)
      · exact h.apart j k id id' slot hold hold'
  · intro j call' stage slot hcall hlistened
    rw [htable, Table.slotAt_register]
    by_cases heq : j = i
    · subst heq
      rw [hown] at hcall
      cases hcall
      cases hlistened
      rw [if_pos rfl]
      exact ⟨rfl, by simp [Slot.fresh]⟩
    · rw [hothers j heq] at hcall
      obtain ⟨id, hentry⟩ := CallStage.entryOf?_of_listened? hlistened
      have hslot := (h.entry j id slot ((entryAt_of_callAt hcall).trans hentry)).2
      rw [if_neg (Nat.ne_of_lt hslot)]
      exact h.listens j call' stage slot hcall hlistened

end Matched

theorem Seen.others {c c' : Client} {table : Table} {sent : List Json} {i : JobId}
    {call : Option (Call × CallStage)}
    (h : Seen c c' table sent (Function.update c.callAt i call)) (j : JobId) (hj : j ≠ i) :
    c'.callAt j = c.callAt j := by
  rw [h.calls, Function.update_of_ne hj]

theorem Seen.own {c c' : Client} {table : Table} {sent : List Json} {i : JobId}
    {call : Option (Call × CallStage)}
    (h : Seen c c' table sent (Function.update c.callAt i call)) : c'.callAt i = call := by
  rw [h.calls, Function.update_self]

theorem CallStep.slots_length_le {c : Client} {call : Call} {stage stage' : CallStage}
    {table : Table} {sent : List Json} (h : CallStep c call stage table sent stage') :
    c.table.slots.length ≤ table.slots.length := by
  cases h with
  | enter hparams =>
      rw [Table.register, List.length_append]
      exact Nat.le_add_right _ _
  | hand | queue | miss => exact Nat.le_refl _
  | refuse => exact Nat.le_of_eq (Table.slots_length_abandon _ _).symm
  | take => exact Nat.le_of_eq (Table.slots_length_takeOutcome _ _).symm
  | expire => exact Nat.le_of_eq (Table.slots_length_modifySlot _ _ _).symm
  | cancel => exact Nat.le_of_eq (Table.slots_length_cancel _ _).symm

theorem slots_length_tableAfter (c : Client) (r : Response) :
    (c.tableAfter r).slots.length = c.table.slots.length := by
  rw [tableAfter]
  split
  · exact Table.slots_length_resolve _ _ _
  · rfl

/-- No move unmakes a slot. -/
theorem slots_length_le_move {c : Client} (hnumbered : c.Numbered) (m : Move) :
    c.table.slots.length ≤ (c.move m).table.slots.length := by
  cases callCase hnumbered m with
  | quiet hreply h => exact Nat.le_of_eq (by rw [h.table])
  | reply hreply h => exact Nat.le_of_eq (by rw [h.table, slots_length_tableAfter])
  | sweep hm hreply hjob h =>
      exact Nat.le_of_eq (by rw [h.table, Table.slots_length_removeIfExpired])
  | step hm hreply hcall hstep hsent h =>
      rw [h.table]
      exact hstep.slots_length_le
  | leave hm hreply hcall hentry hsent h =>
      exact Nat.le_of_eq (by rw [h.table, Table.slots_length_leave])

theorem slots_length_le_run {c : Client} (hnumbered : c.Numbered) (moves : List Move) :
    c.table.slots.length ≤ (c.run moves).table.slots.length := by
  induction moves generalizing c with
  | nil => exact Nat.le_refl _
  | cons m rest ih =>
      exact Nat.le_trans (slots_length_le_move hnumbered m) (ih (hnumbered.move m))

/-- What a reply gives to the table. -/
theorem gives_tableAfter {c : Client} (hseq : c.table.Sequential)
    (hroom : c.table.slots.length < UInt64.size) (r : Response) :
    Gives c.table (c.tableAfter r) := by
  rw [tableAfter]
  split
  · exact .resolve hseq hroom _ _
  · exact .refl hseq

/-- A step of a call leaves the slots of other calls alone. -/
theorem Matched.slotAt_of_step {c : Client} (h : c.Matched)
    (hroom : c.table.slots.length < UInt64.size) {i j : JobId} {id : UInt64} {slot : Nat}
    (hi : c.entryAt i = some (id, slot)) {call : Call} {stage stage' : CallStage} {table : Table}
    {sent : List Json}
    (hcall : (stage = .fresh ∧ c.callAt j = none) ∨ c.callAt j = some (call, stage))
    (hstep : CallStep c call stage table sent stage') (hne : j ≠ i) :
    table.slotAt slot = c.table.slotAt slot := by
  obtain ⟨-, hslot⟩ := h.entry i id slot hi
  rcases hcall with ⟨rfl, -⟩ | hcall
  · cases hstep with
    | enter hparams => rw [Table.slotAt_register, if_neg (Nat.ne_of_lt hslot)]
    | hand hunsent hentry => cases hentry
    | refuse hunsent hentry => cases hentry
  · obtain ⟨id', slot', hentry⟩ := entryOf?_of_callAt hcall
    have hj := (entryAt_of_callAt hcall).trans hentry
    obtain ⟨rfl, hslot'⟩ := h.entry j id' slot' hj
    apply (hstep.touches h.table hroom hentry hslot').others slot hslot
    rintro rfl
    exact hne (h.apart j i _ id slot hj hi)

/-- A call that leaves its entry leaves the slots of other calls alone. -/
theorem Matched.slotAt_of_leave {c : Client} (h : c.Matched)
    (hroom : c.table.slots.length < UInt64.size) {i j : JobId} {id id' : UInt64} {slot slot' : Nat}
    (hi : c.entryAt i = some (id, slot)) (hj : c.entryAt j = some (id', slot')) (hne : j ≠ i) :
    (c.table.leave id' slot').slotAt slot = c.table.slotAt slot := by
  obtain ⟨-, hslot⟩ := h.entry i id slot hi
  obtain ⟨rfl, hslot'⟩ := h.entry j id' slot' hj
  apply (Touches.leave h.table hroom hslot').others slot hslot
  rintro rfl
  exact hne (h.apart j i _ id slot hj hi)

/-- Every move keeps calls and table matched, as long as the ids last. -/
theorem Matched.move {c : Client} (h : c.Matched) (m : Move)
    (hroom : (c.move m).table.slots.length < UInt64.size) : (c.move m).Matched := by
  have hnumbered := h.numbered.move m
  have hbefore := Nat.lt_of_le_of_lt (slots_length_le_move h.numbered m) hroom
  cases callCase h.numbered m with
  | quiet hreply hseen =>
      refine h.of_gives hnumbered ?_ hseen.calls
      rw [hseen.table]
      exact .refl h.table
  | @reply r hreply hseen =>
      refine h.of_gives hnumbered ?_ hseen.calls
      rw [hseen.table]
      exact gives_tableAfter h.table hbefore r
  | sweep hm hreply hjob hseen =>
      refine h.of_gives hnumbered ?_ hseen.calls
      rw [hseen.table]
      exact .removeIfExpired h.table hbefore _ _
  | @step i call stage stage' table sent hm hreply hcall hstep hsent hseen =>
      rcases hcall with ⟨rfl, hnone⟩ | hcall
      · cases hstep with
        | enter hparams =>
            refine h.of_enter hnumbered ?_ hseen.table hseen.others hseen.own
            rw [hseen.table, Table.register, List.length_append, List.length_singleton] at hroom
            exact hroom
        | hand hunsent hentry => cases hentry
        | refuse hunsent hentry => cases hentry
      · obtain ⟨id, slot, hentry⟩ := entryOf?_of_callAt hcall
        have hat : c.entryAt i = some (id, slot) := (entryAt_of_callAt hcall).trans hentry
        obtain ⟨rfl, hslot⟩ := h.entry i id slot hat
        have hfresh : stage ≠ .fresh := by
          rintro rfl
          cases hentry
        refine h.of_touches hnumbered hat ?_ hseen.others ?_ ?_
        · rw [hseen.table]
          exact hstep.touches h.table hbefore hentry hslot
        · intro entry hown
          rw [entryAt_of_callAt hseen.own] at hown
          obtain ⟨id', slot', hentry', ⟨rfl, -⟩ | hsame⟩ := hstep.entryOf?_eq
          · exact absurd rfl hfresh
          · rw [hentry'] at hown
            rw [hentry] at hsame
            cases hown
            exact (Option.some.inj hsame).symm
        · intro call' stage'' slot' hown hlistened
          rw [hseen.own] at hown
          cases hown
          obtain ⟨hlistened', htable⟩ := hstep.listened hlistened hfresh
          rw [hseen.table, htable]
          exact h.listens i call stage slot' hcall hlistened'
  | @leave i call stage id slot hm hreply hcall hentry hsent hseen =>
      have hat : c.entryAt i = some (id, slot) := (entryAt_of_callAt hcall).trans hentry
      obtain ⟨rfl, hslot⟩ := h.entry i id slot hat
      refine h.of_touches hnumbered hat ?_ hseen.others ?_ ?_
      · rw [hseen.table]
        exact .leave h.table hbefore hslot
      · intro entry hown
        rw [entryAt, hseen.own] at hown
        cases hown
      · intro call' stage' slot' hown
        rw [hseen.own] at hown
        cases hown

theorem Matched.run {c : Client} (h : c.Matched) (moves : List Move)
    (hroom : (c.run moves).table.slots.length < UInt64.size) : (c.run moves).Matched := by
  induction moves generalizing c with
  | nil => exact h
  | cons m rest ih =>
      have hnumbered := h.numbered.move m
      have hnext := Nat.lt_of_le_of_lt (slots_length_le_run hnumbered rest) hroom
      exact ih (h.move m hnext) hroom

end Client

end GatewayClient
