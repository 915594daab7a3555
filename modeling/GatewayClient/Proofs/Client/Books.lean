/-
The books of a client.  A move opens an id that it draws, closes one whose entry goes, counts a
stray reply, or leaves table and tally alone; and it closes an id under one account, whatever it is
that ends the call.  So every call that has entered the table is opened once, and closed once by the
time that it has its outcome or is no more.
-/
import GatewayClient.Proofs.Client.Attended
import GatewayClient.Proofs.Client.FirstReply
import GatewayClient.Proofs.Correlation.Ledger

namespace GatewayClient

namespace Table

open Table.Sequential

variable {t : Table} {id : UInt64} {p : PendingCall}

/-- The ids that have been drawn, in order. -/
def drawnIds (t : Table) : List UInt64 :=
  (List.range t.slots.length).map slotId

/-- A table whose entry of this id has gone and been counted under an account. -/
def ClosedTo (t : Table) (id : UInt64) (account : Account) (t' : Table) : Prop :=
  t'.pending = t.pending.erase id ∧ t'.tally = t.tally.credit 1 account

theorem closedTo_cancel (hget : t.pending.get? id = some p) :
    t.ClosedTo id .timeouts (t.cancel id).1 := by
  rw [cancel, hget]
  exact ⟨rfl, rfl⟩

theorem closedTo_abandon (hget : t.pending.get? id = some p) :
    t.ClosedTo id .cancelled (t.abandon id).1 := by
  rw [abandon, hget]
  exact ⟨rfl, rfl⟩

/-- A reply is counted by whether somebody listens to the slot of its entry. -/
theorem closedTo_resolve (hget : t.pending.get? id = some p) (outcome : Outcome) :
    t.ClosedTo id (if t.isListening p.slot then .resolved else .discarded)
      (t.resolve id outcome).1 := by
  rw [resolve, hget]
  dsimp only
  split <;> exact ⟨rfl, rfl⟩

theorem cancel_of_none (hget : t.pending.get? id = none) : (t.cancel id).1 = t := by
  rw [cancel, hget]

theorem abandon_of_none (hget : t.pending.get? id = none) : (t.abandon id).1 = t := by
  rw [abandon, hget]

theorem isPending_of_get? (hget : t.pending.get? id = some p) : t.isPending id = true := by
  rw [isPending, Dictionary.contains, hget]
  rfl

theorem isPending_of_none (hget : t.pending.get? id = none) : t.isPending id = false := by
  rw [isPending, Dictionary.contains, hget]
  rfl

theorem exists_get?_of_isPending (h : t.isPending id = true) :
    ∃ p, t.pending.get? id = some p :=
  Option.isSome_iff_exists.mp h

theorem nodup_drawnIds (hroom : t.slots.length < UInt64.size) : t.drawnIds.Nodup := by
  apply List.Nodup.map_on ?_ List.nodup_range
  intro slot hslot other hother heq
  rw [List.mem_range] at hslot hother
  exact slotId_inj (by omega) (by omega) heq

theorem drawnIds_congr {t' : Table} (hlength : t'.slots.length = t.slots.length) :
    t'.drawnIds = t.drawnIds := by
  rw [drawnIds, hlength, drawnIds]

theorem drawnIds_dropListener (t : Table) (slot : Nat) :
    (t.dropListener slot).drawnIds = t.drawnIds :=
  drawnIds_congr (slots_length_modifySlot t slot _)

end Table

namespace Client

variable {c : Client} {i : JobId} {m : Move} {id other : UInt64} {slot : Nat} {account : Account}
  {moves : List Move}

/-- Why the entry of the call of job `i` goes with a move, and what that is counted as. -/
inductive Ends (c : Client) (m : Move) (i : JobId) (id : UInt64) : Account → Prop where
  | replied {r : Response} {call : Call} {stage : CallStage} {slot : Nat}
    (hreply : c.replyIn? m = some r) (hid : r.callId? = some id)
    (hcall : c.callAt i = some (call, stage)) (hlistened : stage.listened? = some slot) :
    Ends c m i id .resolved
  | late {r : Response} {call : Call} {slot : Nat} (hreply : c.replyIn? m = some r)
    (hid : r.callId? = some id) (hcall : c.callAt i = some (call, .overdue id slot)) :
    Ends c m i id .discarded
  | swept {j : JobId} {next startedAt : Nat} {rest : List UInt64} (hm : m = .advance j)
    (hjob : c.jobs.get? j = some (.sweep next (.removing startedAt (id :: rest))))
    (hexpired : c.table.hasExpired startedAt id = true) : Ends c m i id .timeouts
  | expired {call : Call} {slot : Nat} (hm : m = .advance i)
    (hcall : c.callAt i = some (call, .overdue id slot)) : Ends c m i id .timeouts
  | refused {call : Call} {stage : CallStage} {slot : Nat} (hm : m = .advance i)
    (hcall : c.callAt i = some (call, stage)) (hunsent : stage.unsent? = some id)
    (hover : (c.move m).callAt i = some (call, .over id slot (.error .notConnected))) :
    Ends c m i id .cancelled
  | dropped (hm : m = .drop i) : Ends c m i id .cancelled

/-- The move opens an id: job `i` draws it and enters the table under it. -/
structure Opens (c : Client) (m : Move) (i : JobId) (id : UInt64) : Prop where
  move_eq : m = .advance i
  absent : c.table.isPending id = false
  entries : ∃ p, (c.move m).table.pending = c.table.pending.put id p
  tally : (c.move m).table.tally =
    { c.table.tally with registered := c.table.tally.registered + 1 }
  drawn : (c.move m).table.drawnIds = c.table.drawnIds ++ [id]

/-- The move closes an id: the entry of the call of job `i` goes, no other does, and it is counted
once. -/
structure Closes (c : Client) (m : Move) (i : JobId) (id : UInt64) (account : Account) :
    Prop where
  holds : ∃ slot, c.Holds i id slot
  present : c.table.isPending id = true
  ends : c.Ends m i id account
  entries : (c.move m).table.pending = c.table.pending.erase id
  tally : (c.move m).table.tally = c.table.tally.credit 1 account
  drawn : (c.move m).table.drawnIds = c.table.drawnIds

/-- What a move does in the books. -/
inductive Booked (c : Client) (m : Move) : Prop where
  | idle (entries : (c.move m).table.pending = c.table.pending)
    (tally : (c.move m).table.tally = c.table.tally)
    (drawn : (c.move m).table.drawnIds = c.table.drawnIds)
  | stray {r : Response} {id : UInt64} (hreply : c.replyIn? m = some r)
    (hid : r.callId? = some id) (absent : c.table.isPending id = false)
    (entries : (c.move m).table.pending = c.table.pending)
    (tally : (c.move m).table.tally = c.table.tally.credit 1 .discarded)
    (drawn : (c.move m).table.drawnIds = c.table.drawnIds)
  | opens {i : JobId} {id : UInt64} (h : c.Opens m i id)
  | closes {i : JobId} {id : UInt64} {account : Account} (h : c.Closes m i id account)

section booked

variable {table : Table} {p : PendingCall}

theorem Booked.of_same (htable : (c.move m).table = c.table) : c.Booked m :=
  .idle (by rw [htable]) (by rw [htable]) (by rw [htable])

theorem Closes.of_closedTo (hholds : c.Holds i id slot) (hget : c.table.pending.get? id = some p)
    (hends : c.Ends m i id account) (htable : (c.move m).table = table)
    (hclosed : c.table.ClosedTo id account table)
    (hlength : table.slots.length = c.table.slots.length) : c.Closes m i id account where
  holds := ⟨slot, hholds⟩
  present := Table.isPending_of_get? hget
  ends := hends
  entries := by rw [htable, hclosed.1]
  tally := by rw [htable, hclosed.2]
  drawn := by rw [htable, Table.drawnIds_congr hlength]

/-- Whoever holds an entry waits for its reply, or has just passed its deadline. -/
theorem Holds.listened_or_overdue (h : c.Holds i id slot) :
    (∃ call stage, c.callAt i = some (call, stage) ∧ stage.listened? = some slot) ∨
      ∃ call, c.callAt i = some (call, .overdue id slot) := by
  obtain ⟨call, stage, hcall, hentry, hover⟩ := h
  cases stage with
  | fresh => cases hentry
  | entered | crowded | waiting => cases hentry; exact .inl ⟨call, _, hcall, rfl⟩
  | overdue => cases hentry; exact .inr ⟨call, hcall⟩
  | «over» => cases hover

/-- A reply closes the id that it has, or is a stray. -/
theorem Booked.of_reply (h : c.Attended) {r : Response} (hreply : c.replyIn? m = some r)
    (htable : (c.move m).table = c.tableAfter r) : c.Booked m := by
  rw [tableAfter] at htable
  cases hid : r.callId? with
  | none =>
      rw [hid] at htable
      exact .of_same htable
  | some id =>
      rw [hid] at htable
      dsimp only at htable
      cases hget : c.table.pending.get? id with
      | none =>
          have hresolve : (c.table.resolve id r.outcome).1 = c.table.countDiscarded := by
            rw [Table.resolve, hget]
          rw [hresolve] at htable
          exact .stray hreply hid (Table.isPending_of_none hget) (by rw [htable]; rfl)
            (by rw [htable]; rfl) (by rw [htable]; rfl)
      | some p =>
          obtain ⟨i, hholds⟩ := h.held id p hget
          have hclosed := Table.closedTo_resolve hget r.outcome
          rw [Table.isListening_eq] at hclosed
          rcases hholds.listened_or_overdue with ⟨call, stage, hcall, hlistened⟩ | ⟨call, hcall⟩
          · rw [h.reserved.listens i call stage p.slot hcall hlistened, if_pos rfl] at hclosed
            exact .closes (.of_closedTo hholds hget (.replied hreply hid hcall hlistened) htable
              hclosed (Table.slots_length_resolve _ _ _))
          · rw [h.unheard i call id p.slot hcall, if_neg Bool.false_ne_true] at hclosed
            exact .closes (.of_closedTo hholds hget (.late hreply hid hcall) htable hclosed
              (Table.slots_length_resolve _ _ _))

/-- A sweep closes the id that it is at, if the call has expired. -/
theorem Booked.of_sweep (h : c.Attended) {j : JobId} {next startedAt : Nat} {rest : List UInt64}
    (hm : m = .advance j)
    (hjob : c.jobs.get? j = some (.sweep next (.removing startedAt (id :: rest))))
    (htable : (c.move m).table = (c.table.removeIfExpired startedAt id).1) : c.Booked m := by
  cases hexpired : c.table.hasExpired startedAt id with
  | false =>
      rw [Table.removeIfExpired_of_not_expired hexpired] at htable
      exact .of_same htable
  | true =>
      obtain ⟨p, hget, -⟩ := (Option.any_eq_true _ _).mp hexpired
      obtain ⟨i, hholds⟩ := h.held id p hget
      rw [Table.removeIfExpired_of_expired hexpired] at htable
      exact .closes (.of_closedTo hholds hget (.swept hm hjob hexpired) htable
        (Table.closedTo_cancel hget) (Table.slots_length_cancel _ _))

/-- Whoever has the entry of an id holds it as long as the id has one. -/
theorem Matched.holds (h : c.Matched) (hattended : c.Attended)
    (hroom : c.table.slots.length < UInt64.size) (hentry : c.entryAt i = some (id, slot))
    (hget : c.table.pending.get? id = some p) : c.Holds i id slot := by
  obtain ⟨j, hholds⟩ := hattended.held id p hget
  obtain rfl := h.eq_of_id hroom hentry hholds.entryAt
  rw [hholds.entryAt] at hentry
  cases hentry
  exact hholds

/-- A call that enters the table opens its id. -/
theorem Opens.of_register (h : c.Matched) (hroom : (c.move m).table.slots.length < UInt64.size)
    (hm : m = .advance i) {method : String} {timeout : Option Nat} {now : Nat}
    (htable : (c.move m).table = (c.table.register method timeout now).1) :
    c.Opens m i c.table.newId := by
  have hlength : (c.move m).table.slots.length = c.table.slots.length + 1 := by
    rw [htable, Table.register, List.length_append, List.length_singleton]
  have hnew := h.table.newId_eq (by omega)
  have habsent := h.table.get?_next (by omega)
  rw [h.table.next_eq, ← hnew] at habsent
  refine ⟨hm, Table.isPending_of_none habsent, ?_, ?_, ?_⟩
  · rw [htable]
    exact ⟨_, rfl⟩
  · rw [htable]
    rfl
  · rw [Table.drawnIds, hlength, List.range_succ, List.map_append, hnew]
    rfl

/-- A step of a call opens its id or closes it, or does nothing in the books. -/
theorem Booked.of_step (h : c.Matched) (hattended : c.Attended)
    (hroom : (c.move m).table.slots.length < UInt64.size) {call : Call} {stage stage' : CallStage}
    {sent : List Json} (hm : m = .advance i)
    (hcall : (stage = .fresh ∧ c.callAt i = none) ∨ c.callAt i = some (call, stage))
    (hstep : CallStep c call stage table sent stage') (htable : (c.move m).table = table)
    (hown : (c.move m).callAt i = some (call, stage')) : c.Booked m := by
  have hbefore := Nat.lt_of_le_of_lt (slots_length_le_move h.numbered m) hroom
  have hcalled : ∀ {id slot}, stage.entryOf? = some (id, slot) →
      c.callAt i = some (call, stage) := by
    intro id slot hentry
    rcases hcall with ⟨rfl, -⟩ | hcall
    · cases hentry
    · exact hcall
  cases hstep with
  | enter hparams => exact .opens (.of_register h hroom hm htable)
  | hand | queue | miss => exact .of_same htable
  | take =>
      refine .idle ?_ ?_ ?_
      · rw [htable, Table.pending_takeOutcome]
      · rw [htable, Table.tally_takeOutcome]
      · rw [htable, Table.drawnIds_congr (Table.slots_length_takeOutcome _ _)]
  | expire =>
      refine .idle (by rw [htable]; rfl) (by rw [htable]; rfl) ?_
      rw [htable, Table.drawnIds_dropListener]
  | @refuse _ id slot hunsent hentry =>
      have hat := hcalled hentry
      cases hget : c.table.pending.get? id with
      | none => exact .of_same (htable.trans (Table.abandon_of_none hget))
      | some p =>
          have hholds := h.holds hattended hbefore ((entryAt_of_callAt hat).trans hentry) hget
          exact .closes (.of_closedTo hholds hget (.refused hm hat hunsent hown) htable
            (Table.closedTo_abandon hget) (Table.slots_length_abandon _ _))
  | @cancel id slot =>
      have hat := hcalled rfl
      cases hget : c.table.pending.get? id with
      | none => exact .of_same (htable.trans (Table.cancel_of_none hget))
      | some p =>
          have hholds := h.holds hattended hbefore (entryAt_of_callAt hat) hget
          exact .closes (.of_closedTo hholds hget (.expired hm hat) htable
            (Table.closedTo_cancel hget) (Table.slots_length_cancel _ _))

/-- A call that ends has no entry any more, and one that is given up closes its id if it has. -/
theorem Booked.of_leave (h : c.Matched) (hattended : c.Attended)
    (hroom : c.table.slots.length < UInt64.size) {call : Call} {stage : CallStage}
    (hm : (m = .advance i ∧ ∃ outcome, stage = .over id slot outcome) ∨ m = .drop i)
    (hcall : c.callAt i = some (call, stage)) (hentry : stage.entryOf? = some (id, slot))
    (htable : (c.move m).table = c.table.leave id slot) : c.Booked m := by
  cases hget : c.table.pending.get? id with
  | none =>
      rw [Table.leave, Table.abandon_of_none hget] at htable
      refine .idle (by rw [htable]; rfl) (by rw [htable]; rfl) ?_
      rw [htable, Table.drawnIds_dropListener]
  | some p =>
      have hholds := h.holds hattended hroom ((entryAt_of_callAt hcall).trans hentry) hget
      rcases hm with ⟨-, outcome, rfl⟩ | hm
      · obtain ⟨call', stage, hcall', -, hover⟩ := hholds
        rw [hcall] at hcall'
        cases hcall'
        cases hover
      · exact .closes (.of_closedTo hholds hget (.dropped hm) htable
          (Table.closedTo_abandon hget) (Table.slots_length_leave _ _ _))

/-- Every move is booked. -/
theorem booked (h : c.Matched) (hattended : c.Attended) (m : Move)
    (hroom : (c.move m).table.slots.length < UInt64.size) : c.Booked m := by
  have hbefore := Nat.lt_of_le_of_lt (slots_length_le_move h.numbered m) hroom
  cases callCase h.numbered m with
  | quiet hreply hseen => exact .of_same hseen.table
  | reply hreply hseen => exact .of_reply hattended hreply hseen.table
  | sweep hm hreply hjob hseen => exact .of_sweep hattended hm hjob hseen.table
  | step hm hreply hcall hstep hsent hseen =>
      exact .of_step h hattended hroom hm hcall hstep hseen.table hseen.own
  | leave hm hreply hcall hentry hsent hseen =>
      exact .of_leave h hattended hbefore hm hcall hentry hseen.table

end booked

/-- Whether an id has an entry. -/
def isOpen (c : Client) (id : UInt64) : Bool :=
  c.table.isPending id

/-- How many moves of a run open an id. -/
def openings (c : Client) (id : UInt64) : List Move → Nat
  | [] => 0
  | m :: rest => (!c.isOpen id && (c.move m).isOpen id).toNat + openings (c.move m) id rest

/-- How many moves of a run close an id. -/
def closings (c : Client) (id : UInt64) : List Move → Nat
  | [] => 0
  | m :: rest => (c.isOpen id && !(c.move m).isOpen id).toNat + closings (c.move m) id rest

/-- What is opened is closed or still open. -/
theorem openings_eq (c : Client) (id : UInt64) (moves : List Move) :
    (c.isOpen id).toNat + c.openings id moves =
      c.closings id moves + ((c.run moves).isOpen id).toNat := by
  induction moves generalizing c with
  | nil => rw [openings, closings, run_nil, Nat.zero_add, Nat.add_zero]
  | cons m rest ih =>
      have hrest := ih (c.move m)
      rw [openings, closings, run_cons]
      cases hbefore : c.isOpen id <;> cases hafter : (c.move m).isOpen id <;>
        simp only [hafter, Bool.toNat_true, Bool.toNat_false, Bool.not_true, Bool.not_false,
          Bool.and_true, Bool.and_false] at hrest ⊢ <;> omega

theorem Opens.isOpen (h : c.Opens m i id) : (c.move m).isOpen id = true := by
  obtain ⟨p, hentries⟩ := h.entries
  rw [Client.isOpen, Table.isPending, Dictionary.contains, hentries, Dictionary.get?_put_self]
  rfl

theorem Closes.not_isOpen (h : c.Closes m i id account) : (c.move m).isOpen id = false := by
  rw [Client.isOpen, Table.isPending, Dictionary.contains, h.entries, Dictionary.get?_erase_self]
  rfl

theorem isOpen_congr {c' : Client} (h : c'.table.pending.get? id = c.table.pending.get? id) :
    c'.isOpen id = c.isOpen id := by
  rw [isOpen, Table.isPending, Dictionary.contains, h, isOpen, Table.isPending,
    Dictionary.contains]

/-- A move draws the id that it opens, and none else. -/
theorem Booked.count_drawnIds (h : c.Booked m) (id : UInt64) :
    (c.move m).table.drawnIds.count id =
      c.table.drawnIds.count id + (!c.isOpen id && (c.move m).isOpen id).toNat := by
  have hsame : (c.move m).table.drawnIds = c.table.drawnIds →
      ((c.move m).isOpen id = true → c.isOpen id = true) →
      (c.move m).table.drawnIds.count id =
        c.table.drawnIds.count id + (!c.isOpen id && (c.move m).isOpen id).toNat := by
    intro hdrawn hopen
    rw [hdrawn]
    cases hafter : (c.move m).isOpen id with
    | false => simp
    | true => simp [hopen hafter]
  cases h with
  | idle hentries _ hdrawn =>
      exact hsame hdrawn fun hopen => (isOpen_congr (by rw [hentries])).symm.trans hopen
  | stray _ _ _ hentries _ hdrawn =>
      exact hsame hdrawn fun hopen => (isOpen_congr (by rw [hentries])).symm.trans hopen
  | @closes i id' account h =>
      refine hsame h.drawn fun hopen => ?_
      by_cases heq : id' = id
      · subst heq
        rw [h.not_isOpen] at hopen
        cases hopen
      · rw [← hopen]
        exact (isOpen_congr (by rw [h.entries, Dictionary.get?_erase_of_ne _ (Ne.symm heq)])).symm
  | @opens i id' h =>
      rw [h.drawn, List.count_append]
      by_cases heq : id' = id
      · subst heq
        have habsent : c.isOpen id' = false := h.absent
        simp [habsent, h.isOpen]
      · obtain ⟨p, hentries⟩ := h.entries
        have hopen : (c.move m).isOpen id = c.isOpen id :=
          isOpen_congr (by rw [hentries, Dictionary.get?_put_of_ne _ _ (Ne.symm heq)])
        rw [hopen, List.count_singleton, beq_false_of_ne heq]
        cases c.isOpen id <;> rfl

/-- An id is drawn as often as it is opened. -/
theorem count_drawnIds_run (h : c.Matched) (hattended : c.Attended)
    (hroom : (c.run moves).table.slots.length < UInt64.size) (id : UInt64) :
    (c.run moves).table.drawnIds.count id =
      c.table.drawnIds.count id + c.openings id moves := by
  induction moves generalizing c with
  | nil => rfl
  | cons m rest ih =>
      have hnext := Nat.lt_of_le_of_lt (slots_length_le_run (h.numbered.move m) rest) hroom
      rw [run_cons, ih (h.move m hnext) (hattended.move m) hroom,
        (booked h hattended m hnext).count_drawnIds id, openings, Nat.add_assoc]

end Client

end GatewayClient
