/-
No call times out early.  A call has two clocks: its own deadline, which counts from when its frame
was handed over, and the sweeper's, which counts from when the call entered the table.  Whichever
ends it, its timeout has passed since it entered, unless a reply has said that it timed out or the
ids have gone round.  And whatever happens while a sweep is under way, it ends only calls whose
timeout had passed when it began.
-/
import GatewayClient.Proofs.Client.Deadlines
import GatewayClient.Proofs.Client.NothingLeft
import GatewayClient.Proofs.Client.Sparing

namespace GatewayClient

/-- A result that cannot be read is no timeout. -/
theorem Expected.read_ne_timeout (expected : Expected) (value : Json) :
    expected.read value ≠ .error .timeout := by
  cases expected with
  | nothing => exact nofun
  | payload p =>
      rw [read]
      cases p.normalize value <;> exact nofun

/-- Only code 2 stands for a timeout. -/
theorem Failure.eq_of_timeout {code : Int} (h : (ofCode? code).getD .general = .timeout) :
    code = 2 := by
  have hbranches : code ≠ 0 ∧ code = 2 := by
    simpa [ofCode?, apply_ite (Option.getD · Failure.general), ite_eq_iff] using h
  exact hbranches.2

/-- A reply that carries a timeout has the code of one. -/
theorem Response.code_of_timeout {r : Response} (h : r.outcome = .error .timeout) :
    ∃ e, r.error = some e ∧ e.code = 2 := by
  rw [outcome] at h
  split at h
  · cases h
  · next e _ herror =>
      have hfailure : e.toFailure = .timeout := Except.error.inj h
      exact ⟨e, herror, Int32.toInt_inj.mp (Failure.eq_of_timeout hfailure)⟩
  · cases h

namespace Table

variable {t : Table} {id : UInt64} {slot : Nat} {outcome outcome' : Outcome}

/-- A reply that fills an empty slot is for the entry that has the slot. -/
theorem entry_of_resolve (hmade : slot < t.slots.length)
    (hempty : (t.slotAt slot).content = .empty)
    (hfilled : ((t.resolve id outcome).1.slotAt slot).content = .filled outcome') :
    outcome = outcome' ∧ ∃ p, t.pending.get? id = some p ∧ p.slot = slot := by
  rw [slotAt_resolve] at hfilled
  obtain ⟨p, hget, hp, hslot⟩ := exists_entry_of_conclude hmade hempty hfilled
  rw [hslot, Slot.content_fill] at hfilled
  split at hfilled
  · exact ⟨SlotContent.filled.inj hfilled, p, hget, hp⟩
  · cases hfilled

/-- So is a cancellation. -/
theorem entry_of_cancel (hmade : slot < t.slots.length) (hempty : (t.slotAt slot).content = .empty)
    (hfilled : ((t.cancel id).1.slotAt slot).content = .filled outcome) :
    ∃ p, t.pending.get? id = some p ∧ p.slot = slot := by
  rw [slotAt_cancel] at hfilled
  obtain ⟨p, hget, hp, -⟩ := exists_entry_of_conclude hmade hempty hfilled
  exact ⟨p, hget, hp⟩

/-- An empty slot is not filled when an entry is abandoned. -/
theorem not_filled_of_abandon (hmade : slot < t.slots.length)
    (hempty : (t.slotAt slot).content = .empty) :
    ((t.abandon id).1.slotAt slot).content ≠ .filled outcome := by
  intro hfilled
  rw [slotAt_abandon] at hfilled
  obtain ⟨p, -, -, hslot⟩ := exists_entry_of_conclude hmade hempty hfilled
  rw [hslot] at hfilled
  cases hfilled

/-- A call that enters a table without entries draws the next id. -/
theorem register_of_pending {t : Table} (hpending : t.pending = []) (method : String)
    (timeout : Option Nat) (now : Nat) :
    t.newId = t.next ∧ (t.register method timeout now).1.next = t.next + 1 ∧
      (t.register method timeout now).1.pending =
        [(t.next, ⟨t.slots.length, now, method, timeout.getD t.defaultTimeout⟩)] := by
  have hid : t.newId = t.next := by
    rw [newId, pendingIds, hpending]
    rfl
  refine ⟨hid, congrArg (· + 1) hid, ?_⟩
  have hput : (t.register method timeout now).1.pending = t.pending.put t.newId _ := rfl
  rw [hput, hid, hpending]
  rfl

/-- When the only entry is taken out there is none. -/
theorem leave_of_pending {t : Table} {id : UInt64} {p : PendingCall}
    (hpending : t.pending = [(id, p)]) (slot : Nat) :
    (t.leave id slot).pending = [] ∧ (t.leave id slot).next = t.next := by
  have hget : t.pending.get? id = some p := by rw [hpending, Dictionary.get?, if_pos rfl]
  have herase : t.pending.erase id = [] := by
    rw [hpending, Dictionary.erase, if_pos rfl, Dictionary.erase]
  rw [leave, abandon, hget]
  exact ⟨herase, rfl⟩

/-- A call that has just entered gets a timeout from whoever cancels its id. -/
theorem content_cancel_register (t : Table) (method : String) (timeout : Option Nat) (now : Nat) :
    ((t.register method timeout now).1.cancel t.newId).1.content t.slots.length =
      .filled (.error .timeout) := by
  have hget := (t.get?_register method timeout now t.newId).trans (if_pos rfl)
  have hmade : t.slots.length < (t.register method timeout now).1.slots.length := by
    rw [register, List.length_append]
    exact Nat.lt_succ_self _
  rw [content_eq, slotAt_cancel, slotAt_conclude_self hget hmade, slotAt_register, if_pos rfl]
  rfl

end Table

namespace Client

/-- Since the call of job `i` entered the table with this id and slot, a reply has reached it that
says it timed out. -/
def ToldTimeout (c : Client) (i : JobId) (id : UInt64) (slot : Nat) (since : List Move) : Prop :=
  ∃ mid m after r e, since = mid ++ m :: after ∧ (c.run mid).Unanswered i id slot ∧
    (c.run mid).replyIn? m = some r ∧ r.callId? = some id ∧ r.outcome = .error .timeout ∧
    r.error = some e ∧ e.code = 2 ∧
    ((c.run mid).move m).table.content slot = .filled (.error .timeout)

/-- Since the call of job `i` entered the table with this id and slot, it has been cancelled by a
call that had drawn the same id before and was past its own deadline. -/
def Mistaken (c : Client) (i : JobId) (id : UInt64) (slot : Nat) (since : List Move) : Prop :=
  ∃ mid j after call slot', since = mid ++ .advance j :: after ∧ j ≠ i ∧
    (c.run mid).Unanswered i id slot ∧ (c.run mid).callAt j = some (call, .overdue id slot')

/-- The entry was made in the run when a call entered the table, then and with that call's timeout.
-/
def Entered (c : Client) (moves : List Move) (id : UInt64) (p : PendingCall) : Prop :=
  ∃ before since i call, moves = before ++ .advance i :: since ∧
    (c.run before).Enters (.advance i) i call id p.slot ∧ p.registeredAt = (c.run before).clock ∧
    p.timeout = (c.run before).timeoutOf call

/-- Job `j` has been at one sweep since its last step out of rest in the run, at this time. -/
def SweepsSince (c : Client) (moves : List Move) (j : JobId) (startedAt : Nat) : Prop :=
  ∃ before since next, moves = before ++ .advance j :: since ∧
    (c.run before).jobs.get? j = some (.sweep next .resting) ∧ startedAt = (c.run before).clock ∧
    ∀ mid, mid <+: since → ∃ ids,
      (((c.run before).move (.advance j)).run mid).sweeping j = some (startedAt, ids)

/-- In a run, no call times out early.  When a call is over with a timeout, a reply has said so, or
its timeout has passed since it entered the table; otherwise the ids have gone round, and it was
taken for a call that had the same id before.  A sweeper ends only calls whose timeout had passed by
the time that its sweep began. -/
structure NeverEarly (c : Client) (moves : List Move) : Prop where
  calls : ∀ i call id slot, (c.run moves).callAt i = some (call, .over id slot (.error .timeout)) →
    ∃ before since, moves = before ++ .advance i :: since ∧
      (c.run before).Enters (.advance i) i call id slot ∧
      (((c.run before).move (.advance i)).ToldTimeout i id slot since ∨
        (c.run before).now + (c.run before).timeoutOf call ≤ (c.run moves).now ∨
        UInt64.size ≤ (c.run moves).table.slots.length ∧
          ((c.run before).move (.advance i)).Mistaken i id slot since)
  returned : ∀ i, (c.run moves).FailsWith i .timeout →
    ∃ call id slot, (c.run moves).callAt i = some (call, .over id slot (.error .timeout))
  sweeps : ∀ before after j next stage, moves = before ++ .advance j :: after →
    (c.run before).jobs.get? j = some (.sweep next stage) →
    ((c.run before).move (.advance j)).table = (c.run before).table ∨
      ∃ startedAt id p, (c.run before).table.pending.get? id = some p ∧
        ((c.run before).move (.advance j)).table = ((c.run before).table.cancel id).1 ∧
        c.Entered before id p ∧ c.SweepsSince before j startedAt ∧
        p.registeredAt + p.timeout < startedAt

variable {c : Client} {m : Move} {i j : JobId} {call call' : Call} {stage stage' : CallStage}
  {table : Table} {sent : List Json} {id : UInt64} {slot due startedAt : Nat} {ids : List UInt64}
  {p : PendingCall} {moves since : List Move}

theorem later_move (hnumbered : c.Numbered) (m : Move) : Later c (c.move m) := by
  cases callCase hnumbered m with
  | quiet _ h | reply _ h | sweep _ _ _ h | step _ _ _ _ _ h | leave _ _ _ _ _ h => exact h.later

theorem later_run (hnumbered : c.Numbered) (moves : List Move) : Later c (c.run moves) := by
  induction moves generalizing c with
  | nil => exact .of_eq rfl rfl
  | cons m rest ih => exact (later_move hnumbered m).trans (ih (hnumbered.move m))

/-- A step of a call makes an entry only by entering the table. -/
theorem CallStep.get?_cases (h : CallStep c call stage table sent stage')
    (hget : table.pending.get? id = some p) :
    c.table.pending.get? id = some p ∨ stage = .fresh ∧ stage' = .entered id p.slot ∧
      p.registeredAt = c.clock ∧ p.timeout = c.timeoutOf call := by
  cases h with
  | enter =>
      rw [Table.get?_register] at hget
      split at hget
      · next hid =>
          cases hget
          exact .inr ⟨rfl, by rw [hid], rfl, rfl⟩
      · exact .inl hget
  | hand | queue | miss | expire => exact .inl hget
  | refuse =>
      rw [Table.get?_abandon] at hget
      split at hget
      · cases hget
      · exact .inl hget
  | take =>
      rw [Table.pending_takeOutcome] at hget
      exact .inl hget
  | cancel =>
      rw [Table.get?_cancel] at hget
      split at hget
      · cases hget
      · exact .inl hget

/-- An entry after a move has been there before, or is that of a call that has just entered. -/
theorem entry_of_move (hnumbered : c.Numbered)
    (hget : (c.move m).table.pending.get? id = some p) :
    c.table.pending.get? id = some p ∨ ∃ i call, c.Enters m i call id p.slot ∧
      p.registeredAt = c.clock ∧ p.timeout = c.timeoutOf call := by
  cases callCase hnumbered m with
  | quiet hreply h => exact .inl (h.table ▸ hget)
  | reply hreply h => exact .inl (Attended.get?_of_tableAfter (h.table ▸ hget))
  | sweep hm hreply hjob h => exact .inl (Attended.get?_of_removeIfExpired (h.table ▸ hget))
  | leave hm hreply hcall hentry hsent h => exact .inl (Attended.get?_of_leave (h.table ▸ hget)).2
  | @step i call stage stage' table sent hm hreply hcall hstep hsent h =>
      rw [h.table] at hget
      rcases hstep.get?_cases hget with hold | ⟨rfl, rfl, hat, htimeout⟩
      · exact .inl hold
      · rcases callAt_of_move hnumbered h.own rfl with ⟨stage, hbefore, hentry⟩ | ⟨henters, -, -⟩
        · rcases hcall with ⟨-, hnone⟩ | hfresh
          · rw [hnone] at hbefore
            cases hbefore
          · rw [hfresh] at hbefore
            cases hbefore
            cases hentry
        · exact .inr ⟨i, call, henters, hat, htimeout⟩

/-- Every entry of the table was made when a call entered it. -/
theorem entered_of_get? (hnumbered : c.Numbered) (hnew : c.table.pending = [])
    (hget : (c.run moves).table.pending.get? id = some p) : c.Entered moves id p := by
  induction moves using List.reverseRecOn with
  | nil =>
      rw [run_nil, hnew] at hget
      cases hget
  | append_singleton moves m ih =>
      rw [run_concat] at hget
      rcases entry_of_move (hnumbered.run moves) hget with hold | ⟨i, call, henters, hat, htimeout⟩
      · obtain ⟨before, since, i, call, rfl, hrest⟩ := ih hold
        exact ⟨before, since ++ [m], i, call, by simp, hrest⟩
      · obtain rfl := henters.move_eq
        exact ⟨moves, [], i, call, rfl, henters, hat, htimeout⟩

/-- The entry that has the slot of a call was made when that call entered the table. -/
theorem Enters.entry (h : c.Enters m i call id slot) (hreserved : c.Reserved) {id' : UInt64}
    (hget : ((c.move m).run since).table.pending.get? id' = some p) (hslot : p.slot = slot) :
    id' = id ∧ p.registeredAt = c.clock ∧ p.timeout = c.timeoutOf call := by
  have hlast := (h.register hreserved.numbered).2.1
  have hnumbered := hreserved.numbered.move m
  induction since using List.reverseRecOn with
  | nil =>
      rcases entry_of_move hreserved.numbered hget with hold | ⟨i', call', henters, hrest⟩
      · exact absurd (hreserved.table.made id' p hold) (by omega)
      · have hafter := h.after
        obtain rfl : i = i' := Move.advance.inj (h.move_eq.symm.trans henters.move_eq)
        rw [henters.after] at hafter
        cases hafter
        exact ⟨rfl, hrest⟩
  | append_singleton since m' ih =>
      rw [run_concat] at hget
      rcases entry_of_move (hnumbered.run since) hget with hold | ⟨i', call', henters, -⟩
      · exact ih hold
      · have hmade := (hreserved.move m).made i id slot (entryAt_of_callAt h.after)
        have hle := slots_length_le_run hnumbered since
        have hlast' := (henters.register (hnumbered.run since)).2.1
        omega

/-- A job that is at a sweep has begun it in the run. -/
theorem sweepsSince_of_sweeping (hnone : ∀ j, c.sweeping j = none)
    (hsweep : (c.run moves).sweeping j = some (startedAt, ids)) :
    c.SweepsSince moves j startedAt := by
  induction moves using List.reverseRecOn generalizing ids with
  | nil =>
      rw [run_nil, hnone] at hsweep
      cases hsweep
  | append_singleton moves m ih =>
      have hlast := hsweep
      rw [run_concat] at hsweep
      have hgoes : ∀ {ids'}, (c.run moves).sweeping j = some (startedAt, ids') →
          c.SweepsSince (moves ++ [m]) j startedAt := by
        intro ids' hold
        obtain ⟨before, since, next, rfl, hget, hstarted, hall⟩ := ih hold
        refine ⟨before, since ++ [m], next, by simp, hget, hstarted, fun mid hmid => ?_⟩
        rcases List.prefix_concat_iff.mp hmid with rfl | hmid
        · exact ⟨ids, by rwa [List.append_assoc, List.cons_append, run_append] at hlast⟩
        · exact hall mid hmid
      rcases sweeping_move hsweep with hold | ⟨rfl, ⟨id, hold⟩ | ⟨⟨next, hget⟩, hstarted, -⟩⟩
      · exact hgoes hold
      · exact hgoes hold
      · refine ⟨moves, [], next, rfl, hget, hstarted, fun mid hmid => ?_⟩
        rw [List.prefix_nil.mp hmid]
        exact ⟨ids, hsweep⟩

theorem SweepsSince.le_clock (h : c.SweepsSince moves j startedAt) (hnumbered : c.Numbered) :
    startedAt ≤ (c.run moves).clock := by
  obtain ⟨before, since, next, rfl, -, rfl, -⟩ := h
  rw [run_append]
  exact (later_run (hnumbered.run before) _).clock

/-- A step of a sweeper leaves the table as it is, or cancels a call that had expired when its sweep
began. -/
theorem table_of_sweeper {next : Nat} {stage : SweepStage}
    (hget : c.jobs.get? j = some (.sweep next stage)) :
    (c.move (.advance j)).table = c.table ∨
      ∃ startedAt id rest p, c.sweeping j = some (startedAt, id :: rest) ∧
        c.table.pending.get? id = some p ∧ p.isExpired startedAt = true ∧
        (c.move (.advance j)).table = (c.table.cancel id).1 := by
  cases stage with
  | resting =>
      left
      by_cases hearly : c.now < next <;>
        simp only [move, stepJob?, hget, stepSweep?, hearly, ↓reduceIte, Option.getD_none,
          Option.getD_some, setJob, pause]
  | removing startedAt ids =>
      cases ids with
      | nil =>
          left
          simp only [move, stepJob?, hget, stepSweep?, Option.getD_some, setJob]
      | cons id rest =>
          have htable : (c.move (.advance j)).table =
              (c.table.removeIfExpired startedAt id).1 := by
            obtain ⟨ready, heq⟩ :=
              { c with table := (c.table.removeIfExpired startedAt id).1 }.wakeOption_eq
                ((c.table.pending.get? id).bind fun call => c.listenerOf call.slot)
            simp only [move, stepJob?, hget, stepSweep?, Option.getD_some, setJob, sweepOne,
              withEntry]
            rw [heq]
          rw [htable, Table.removeIfExpired_eq]
          split
          · next hexpired =>
              obtain ⟨p, hp, hcall⟩ := (Option.any_eq_true _ _).mp hexpired
              exact .inr ⟨startedAt, id, rest, p, by rw [sweeping, hget]; rfl, hp, hcall, rfl⟩
          · exact .inl rfl

/-- Why a call whose slot got a timeout in a run, or whose deadline has passed, was not ended early:
it was due by `due` at the latest. -/
def Excused (c : Client) (i : JobId) (id : UInt64) (slot due : Nat) (since : List Move) : Prop :=
  c.ToldTimeout i id slot since ∨ due ≤ (c.run since).now ∨ c.Mistaken i id slot since

theorem Excused.concat (h : c.Excused i id slot due since) (hnumbered : c.Numbered) (m : Move) :
    c.Excused i id slot due (since ++ [m]) := by
  rcases h with ⟨mid, m', after, r, e, rfl, hrest⟩ | hdue | ⟨mid, j, after, call, slot', rfl, hrest⟩
  · exact .inl ⟨mid, m', after ++ [m], r, e, by simp, hrest⟩
  · refine .inr (.inl ?_)
    rw [run_concat]
    exact Nat.le_trans hdue (later_move (hnumbered.run since) m).now
  · exact .inr (.inr ⟨mid, j, after ++ [m], call, slot', by simp, hrest⟩)

/-- A step of another call fills an empty slot only by cancelling the entry with the slot. -/
theorem CallStep.overdue_of_filled {outcome : Outcome}
    (h : CallStep c call stage table sent stage') (hmade : slot < c.table.slots.length)
    (hempty : (c.table.slotAt slot).content = .empty)
    (hfilled : (table.slotAt slot).content = .filled outcome) :
    ∃ id slot' p, stage = .overdue id slot' ∧ c.table.pending.get? id = some p ∧ p.slot = slot := by
  have hsame : (table.slotAt slot).content ≠ (c.table.slotAt slot).content := by
    intro heq
    rw [heq, hempty] at hfilled
    cases hfilled
  cases h with
  | enter =>
      rw [Table.slotAt_register, if_neg (Nat.ne_of_lt hmade)] at hsame
      exact absurd rfl hsame
  | hand | queue | miss => exact absurd rfl hsame
  | refuse => exact absurd hfilled (Table.not_filled_of_abandon hmade hempty)
  | @take id slot' deadline outcome hcontent =>
      have hne : slot' ≠ slot := by
        rintro rfl
        rw [Table.content_eq, hempty] at hcontent
        cases hcontent
      rw [Table.takeOutcome, hcontent, Table.slotAt_modifySlot_of_ne _ _ hne] at hsame
      exact absurd rfl hsame
  | expire => exact absurd (by rw [Table.content_dropListener]) hsame
  | @cancel id slot' =>
      obtain ⟨p, hget, hp⟩ := Table.entry_of_cancel hmade hempty hfilled
      exact ⟨id, slot', p, rfl, hget, hp⟩

/-- An empty slot of a call gets a timeout, by a move that is not the call's own, from a reply that
says so, from a sweep, or from a call that is past its deadline and cancels the entry with the slot.
-/
theorem Unanswered.filled (h : c.Unanswered i id slot) (hreserved : c.Reserved)
    (hother : m ≠ .advance i)
    (hfilled : ((c.move m).table.slotAt slot).content = .filled (.error .timeout)) :
    ∃ id' p, c.table.pending.get? id' = some p ∧ p.slot = slot ∧
      ((∃ r, c.replyIn? m = some r ∧ r.callId? = some id' ∧ r.outcome = .error .timeout) ∨
        (∃ j startedAt ids, c.sweeping j = some (startedAt, ids) ∧ p.isExpired startedAt = true) ∨
        ∃ j call slot', m = .advance j ∧ j ≠ i ∧ c.callAt j = some (call, .overdue id' slot')) := by
  obtain ⟨call, stage, hcall, hentry, hlistened, hempty⟩ := h
  have hmade := hreserved.made i id slot ((entryAt_of_callAt hcall).trans hentry)
  have hstays : c.table.slotAt slot ≠ (c.move m).table.slotAt slot := by
    intro heq
    rw [← heq, hempty] at hfilled
    cases hfilled
  cases callCase hreserved.numbered m with
  | quiet hreply hseen => exact absurd (by rw [hseen.table]) hstays
  | @reply r hreply hseen =>
      rw [hseen.table, tableAfter] at hfilled hstays
      cases hid : r.callId? with
      | none => exact absurd (by rw [hid]) hstays
      | some id' =>
          rw [hid] at hfilled
          obtain ⟨houtcome, p, hget, hp⟩ := Table.entry_of_resolve hmade hempty hfilled
          exact ⟨id', p, hget, hp, .inl ⟨r, hreply, hid, houtcome⟩⟩
  | @sweep j next startedAt id' rest hm hreply hjob hseen =>
      rw [hseen.table, Table.removeIfExpired_eq] at hfilled hstays
      split at hfilled
      · next hexpired =>
          obtain ⟨p, hget, hp⟩ := Table.entry_of_cancel hmade hempty hfilled
          rw [hget, Option.any_some] at hexpired
          have hsweeping : c.sweeping j = some (startedAt, id' :: rest) := by
            rw [sweeping, hjob]
            rfl
          exact ⟨id', p, hget, hp, .inr (.inl ⟨j, startedAt, _, hsweeping, hexpired⟩)⟩
      · next hstill => exact absurd (by rw [if_neg hstill]) hstays
  | @step j call' stage₁ stage₂ table sent hm hreply hcall' hstep hsent hseen =>
      rw [hseen.table] at hfilled
      obtain ⟨id', slot', p, rfl, hget, hp⟩ := hstep.overdue_of_filled hmade hempty hfilled
      have hne : j ≠ i := fun heq => hother (heq ▸ hm)
      have hj : c.callAt j = some (call', .overdue id' slot') := by
        rcases hcall' with ⟨hfresh, -⟩ | hj
        · cases hfresh
        · exact hj
      exact ⟨id', p, hget, hp, .inr (.inr ⟨j, call', slot', hm, hne, hj⟩)⟩
  | @leave j call' stage₁ id' slot' hm hreply hcall' hentry' hsent hseen =>
      rw [hseen.table, Table.leave, Table.content_dropListener] at hfilled
      exact absurd hfilled (Table.not_filled_of_abandon hmade hempty)

/-- How a call stands in a run since it entered the table, which may time out from `due` on. -/
structure Patient (c : Client) (i : JobId) (id : UInt64) (slot due : Nat) (since : List Move)
    (stage : CallStage) : Prop where
  listening : stage.listened? = some slot →
    ((c.run since).table.slotAt slot).content = .filled (.error .timeout) →
    c.Excused i id slot due since
  waiting : ∀ deadline, stage = .waiting id slot deadline → due ≤ deadline
  overdue : stage = .overdue id slot → due ≤ (c.run since).now
  ended : stage = .over id slot (.error .timeout) → c.Excused i id slot due since

/-- A move that leaves the call and the table alone. -/
theorem Patient.still (h : c.Patient i id slot due since stage) (hnumbered : c.Numbered)
    (htable : ((c.run since).move m).table = (c.run since).table) :
    c.Patient i id slot due (since ++ [m]) stage := by
  have hnow := (later_move (hnumbered.run since) m).now
  rw [← run_concat] at htable hnow
  refine ⟨fun hlistened hfilled => ?_, h.waiting, fun hstage => ?_, fun hstage => ?_⟩
  · rw [htable] at hfilled
    exact (h.listening hlistened hfilled).concat hnumbered m
  · exact Nat.le_trans (h.overdue hstage) hnow
  · exact (h.ended hstage).concat hnumbered m

/-- By a move that is not its own, a call gets a timeout only with an excuse. -/
theorem Patient.others (h : c.Patient i id slot due since stage) (hnumbered : c.Numbered)
    (hreserved : (c.run since).Reserved) (hcall : (c.run since).callAt i = some (call, stage))
    (hentry : stage.entryOf? = some (id, slot))
    (hentries : ∀ id' p, (c.run since).table.pending.get? id' = some p → p.slot = slot →
      id' = id ∧ (p.registeredAt + p.timeout < (c.run since).clock → due ≤ (c.run since).now))
    (hsweeps : ∀ j startedAt ids, (c.run since).sweeping j = some (startedAt, ids) →
      startedAt ≤ (c.run since).clock)
    (hadvance : m ≠ .advance i) (hdrop : m ≠ .drop i) :
    c.Patient i id slot due (since ++ [m]) stage := by
  have hnow := (later_move hreserved.numbered m).now
  refine ⟨?_, h.waiting, ?_, fun hstage => (h.ended hstage).concat hnumbered m⟩
  · intro hlistened hfilled
    rw [run_concat] at hfilled
    by_cases hempty : ((c.run since).table.slotAt slot).content = .empty
    · have hopen : (c.run since).Unanswered i id slot :=
        ⟨call, stage, hcall, hentry, hlistened, hempty⟩
      obtain ⟨id', p, hget, hslot, hwhy⟩ := hopen.filled hreserved hadvance hfilled
      obtain ⟨rfl, hdue⟩ := hentries id' p hget hslot
      rcases hwhy with ⟨r, hreply, hid, houtcome⟩ | ⟨j, startedAt, ids, hsweep, hexpired⟩ |
        ⟨j, call', slot', rfl, hne, hoverdue⟩
      · obtain ⟨e, herror, hcode⟩ := Response.code_of_timeout houtcome
        rw [← Table.content_eq] at hfilled
        exact .inl ⟨since, m, [], r, e, rfl, hopen, hreply, hid, houtcome, herror, hcode, hfilled⟩
      · refine .inr (.inl ?_)
        have hpast := Nat.lt_of_lt_of_le (PendingCall.lt_of_isExpired hexpired)
          (hsweeps j startedAt ids hsweep)
        rw [run_concat]
        exact Nat.le_trans (hdue hpast) hnow
      · exact .inr (.inr ⟨since, j, [], call', slot', rfl, hne, hopen, hoverdue⟩)
    · rw [hreserved.slotAt_of_others ((entryAt_of_callAt hcall).trans hentry) hempty hadvance hdrop]
        at hfilled
      exact (h.listening hlistened hfilled).concat hnumbered m
  · intro hstage
    rw [run_concat]
    exact Nat.le_trans (h.overdue hstage) hnow

/-- With its own steps, a call comes to a timeout when it is due, or finds one in its slot. -/
theorem Patient.own (h : c.Patient i id slot due since stage) (hnumbered : c.Numbered)
    (hentry : stage.entryOf? = some (id, slot))
    (hstep : CallStep (c.run since) call stage table sent stage')
    (htable : ((c.run since).move m).table = table)
    (hdue : due ≤ (c.run since).now + (c.run since).timeoutOf call) :
    c.Patient i id slot due (since ++ [m]) stage' := by
  have hnow := (later_move (hnumbered.run since) m).now
  rw [← run_concat] at htable hnow
  cases hstep with
  | enter => cases hentry
  | hand hunsent hentry' =>
      obtain ⟨slot', hentry'', hlistened⟩ := CallStage.entryOf?_of_unsent? hunsent
      rw [hentry] at hentry' hentry''
      cases hentry'
      cases hentry''
      refine ⟨fun _ hfilled => ?_, ?_, nofun, nofun⟩
      · rw [htable] at hfilled
        exact (h.listening hlistened hfilled).concat hnumbered m
      · rintro deadline ⟨⟩
        exact hdue
  | queue =>
      refine ⟨fun hlistened hfilled => ?_, nofun, nofun, nofun⟩
      rw [htable] at hfilled
      exact (h.listening hlistened hfilled).concat hnumbered m
  | refuse | miss => exact ⟨nofun, nofun, nofun, nofun⟩
  | take hcontent =>
      cases hentry
      refine ⟨nofun, nofun, nofun, ?_⟩
      rintro ⟨⟩
      rw [Table.content_eq] at hcontent
      exact (h.listening rfl hcontent).concat hnumbered m
  | expire hcontent hdeadline =>
      cases hentry
      refine ⟨nofun, nofun, fun _ => ?_, nofun⟩
      exact Nat.le_trans (h.waiting _ rfl) (Nat.le_trans hdeadline hnow)
  | cancel =>
      cases hentry
      refine ⟨nofun, nofun, nofun, fun _ => .inr (.inl ?_)⟩
      exact Nat.le_trans (h.overdue rfl) hnow

/-- A call, seen from the move at which it has entered the table. -/
theorem Enters.patient (henters : c.Enters m i call id slot) (hreserved : c.Reserved)
    (hsweeps : ∀ since j startedAt ids, ((c.move m).run since).sweeping j = some (startedAt, ids) →
      startedAt ≤ ((c.move m).run since).clock)
    (hcall : ((c.move m).run since).callAt i = some (call', stage))
    (hentry : stage.entryOf? = some (id, slot)) :
    call' = call ∧ (c.move m).Patient i id slot (c.now + c.timeoutOf call) since stage := by
  have hstart := hreserved.move m
  have hnumbered := hstart.numbered
  induction since using List.reverseRecOn generalizing stage with
  | nil =>
      rw [run_nil, henters.after] at hcall
      cases hcall
      refine ⟨rfl, fun _ hfilled => ?_, nofun, nofun, nofun⟩
      rw [run_nil, henters.empty] at hfilled
      cases hfilled
  | append_singleton since m' ih =>
      rw [run_concat] at hcall
      have hrun := hstart.run since
      rcases callAt_of_move hrun.numbered hcall hentry with
        ⟨stage₁, hbefore, hentry₁⟩ | ⟨hagain, -, hlast⟩
      · obtain ⟨rfl, hpatient⟩ := ih hbefore hentry₁
        refine ⟨rfl, ?_⟩
        have hlater := (later_move hreserved.numbered m).trans (later_run hnumbered since)
        have hdue : c.now + c.timeoutOf call' ≤
            ((c.move m).run since).now + ((c.move m).run since).timeoutOf call' := by
          rw [timeoutOf_run hnumbered, timeoutOf_move hreserved.numbered]
          exact Nat.add_le_add_right hlater.now _
        obtain ⟨-, ⟨rfl, hadvance, hdrop⟩ | ⟨rfl, htable⟩ |
            ⟨-, table, sent, hstep, htable, -⟩⟩ := turn_of_move hrun.numbered hbefore hcall
        · refine hpatient.others hnumbered hrun hbefore hentry₁ ?_ (hsweeps since) hadvance hdrop
          intro id' p hget hslot
          obtain ⟨hid, hat, htimeout⟩ := henters.entry hreserved hget hslot
          -- The table's clock does not gain on the timers, which have gone on at least as far.
          refine ⟨hid, fun hpast => ?_⟩
          have hpace := hlater.pace
          rw [hat, htimeout] at hpast
          omega
        · exact hpatient.still hnumbered htable
        · exact hpatient.own hnumbered hentry₁ hstep htable hdue
      · exact absurd (hstart.made i id slot (entryAt_of_callAt henters.after)) (by
          have hle := slots_length_le_run hnumbered since
          omega)

/-- A call is over before it returns, with the failure that it returns if that is a timeout. -/
theorem FailsWith.over_of_timeout (h : c.FailsWith i .timeout) (hnumbered : c.Numbered) :
    ∃ call id slot, c.callAt i = some (call, .over id slot (.error .timeout)) := by
  cases h with
  | @call call expected stage hjob hgone htold =>
      obtain ⟨outcome, heq, ⟨id, slot, rfl⟩ | ⟨-, -, rfl⟩⟩ := told_of_gone hjob hgone
      · have htimeout : outcome.bind expected.read = .error .timeout := by
          simpa using heq.symm.trans htold
        cases outcome with
        | ok value => exact absurd htimeout (expected.read_ne_timeout value)
        | error f =>
            cases htimeout
            exact ⟨call, id, slot, callAt_of_work? hjob rfl⟩
      · cases List.append_cancel_left (heq.symm.trans htold)
  | change hwork hfails =>
      obtain ⟨id, slot, outcome, hcall, hiff⟩ := over_of_releasing hnumbered hwork hfails
      rw [(hiff .timeout).mp rfl] at hcall
      exact ⟨_, id, slot, hcall⟩

/-- As long as the ids last, no two calls under way have the same, so none is taken for another. -/
theorem Mistaken.size_le {settings : Settings} {link : Link} {before : List Move}
    (h : ((ofSettings settings link).run before).Mistaken i id slot since) :
    UInt64.size ≤ ((ofSettings settings link).run (before ++ since)).table.slots.length := by
  by_contra hroom
  obtain ⟨mid, j, after, call', slot', rfl, hne, ⟨call, stage, hi, hentry, -⟩, hj⟩ := h
  rw [← run_append] at hi hj
  have hnumbered := ((Reserved.ofSettings settings link).run (before ++ mid)).numbered
  have hle := slots_length_le_run hnumbered (.advance j :: after)
  rw [← run_append, List.append_assoc] at hle
  have hlast := Nat.lt_of_le_of_lt hle (Nat.lt_of_not_le hroom)
  have hmatched := (Matched.ofSettings settings link).run _ hlast
  exact hne (hmatched.eq_of_id hlast (entryAt_of_callAt hj) ((entryAt_of_callAt hi).trans hentry))

/-- In every run, no call times out early. -/
theorem never_early (settings : Settings) (link : Link) (moves : List Move) :
    (ofSettings settings link).NeverEarly moves := by
  have hstart := Reserved.ofSettings settings link
  have hsweeps : ∀ {moves j startedAt ids},
      ((ofSettings settings link).run moves).sweeping j = some (startedAt, ids) →
      (ofSettings settings link).SweepsSince moves j startedAt :=
    fun hsweep => sweepsSince_of_sweeping (fun _ => rfl) hsweep
  refine ⟨?_, fun i hfails => hfails.over_of_timeout (hstart.numbered.run moves), ?_⟩
  · intro i call id slot hcall
    obtain ⟨before, since, rfl, henters⟩ :=
      exists_enters hstart.numbered (fun i => rfl) hcall rfl
    refine ⟨before, since, rfl, henters, ?_⟩
    have hnow : ∀ since j startedAt ids,
        (((((ofSettings settings link).run before).move (.advance i)).run since).sweeping j =
          some (startedAt, ids)) → startedAt ≤
            ((((ofSettings settings link).run before).move (.advance i)).run since).clock := by
      intro since j startedAt ids hsweep
      rw [← run_cons, ← run_append] at hsweep ⊢
      exact (hsweeps hsweep).le_clock hstart.numbered
    rw [run_append, run_cons] at hcall ⊢
    obtain ⟨-, hpatient⟩ := henters.patient (hstart.run before) hnow hcall rfl
    rcases hpatient.ended rfl with htold | hdue | hmistaken
    · exact .inl htold
    · exact .inr (.inl hdue)
    · have hlater := hmistaken
      rw [← run_concat] at hlater
      have hround := hlater.size_le
      rw [run_append, run_concat] at hround
      exact .inr (.inr ⟨hround, hmistaken⟩)
  · rintro before after j next stage rfl hget
    rcases table_of_sweeper hget with hsame | ⟨startedAt, id, rest, p, hsweep, hp, hexpired, htable⟩
    · exact .inl hsame
    · exact .inr ⟨startedAt, id, p, hp, htable, entered_of_get? hstart.numbered rfl hp,
        hsweeps hsweep, PendingCall.lt_of_isExpired hexpired⟩

/-- A sweep that begins when exactly the timeout of a call has passed leaves it, and one that begins
a millisecond later ends it. -/
example :
    let moves (ms : Nat) : List Move :=
      [.begin (.call ⟨"device.name", some (.object []), some 10⟩ .nothing), .advance 0, .advance 0,
        .elapse ms, .startSweeper, .advance 1, .advance 1]
    ((ofSettings {} (.direct .up)).run (moves 10)).table.tally.timeouts = 0 ∧
      ((ofSettings {} (.direct .up)).run (moves 11)).table.tally.timeouts = 1 := by
  decide +kernel

/-- In a run, the call of job `i` times out early: it returns a timeout, no reply has said so since
it entered the table, and its timeout has not passed. -/
def TimesOutEarly (c : Client) (moves : List Move) (i : JobId) : Prop :=
  (c.run moves).FailsWith i .timeout ∧
    ∃ before since call id slot, moves = before ++ .advance i :: since ∧
      (c.run before).Enters (.advance i) i call id slot ∧
      (c.run moves).callAt i = some (call, .over id slot (.error .timeout)) ∧
      ¬((c.run before).move (.advance i)).ToldTimeout i id slot since ∧
      (c.run moves).now < (c.run before).now + (c.run before).timeoutOf call

/-- A call of a method without parameters. -/
def plainCall (timeout : Option Nat) : Call :=
  ⟨"device.name", some (.object []), timeout⟩

/-- Job 0 comes to be past its deadline with id 1, and the reply to it comes in. -/
def hangBack : List Move :=
  [.begin (.call (plainCall (some 0)) .nothing), .advance 0, .advance 0, .advance 0,
    .deliver "\x7b\"jsonrpc\":\"2.0\",\"id\":1,\"result\":null\x7d" true]

/-- Each of the jobs `1` to `n` draws an id and is given up. -/
def laps : Nat → List Move
  | 0 => []
  | n + 1 =>
    laps n ++ [.begin (.call (plainCall none) .nothing), .advance (n + 1), .drop (n + 1)]

/-- After `n` laps, a call draws an id, and then job 0 cancels the id it has drawn itself. -/
def overtaken (n : Nat) : List Move :=
  hangBack ++ laps n ++
    [.begin (.call (plainCall (some 1000)) .nothing), .advance (n + 1), .advance 0,
      .advance (n + 1), .advance (n + 1)]

/-- How a client stands over a direct link that is up, while no time has passed. -/
structure Stands (c : Client) (jobs : Dictionary JobId Job) (nextJob : JobId) (table : Table) :
    Prop where
  now : c.now = 0
  clock : c.clock = 0
  link : c.link = .direct .up
  jobs : c.jobs = jobs
  nextJob : c.nextJob = nextJob
  table : c.table = table

namespace Stands

variable {c : Client} {i : JobId} {call : Call} {expected : Expected} {stage : CallStage}
  {jobs : Dictionary JobId Job} {nextJob : JobId} {table : Table} {id : UInt64} {slot : Nat}

theorem begin (h : c.Stands jobs nextJob table) (call : Call) (expected : Expected) :
    (c.move (.begin (.call call expected))).Stands
      (jobs.put nextJob (.call call expected .fresh)) (nextJob + 1) table := by
  obtain ⟨ready, heq⟩ := c.start_eq (.call call expected .fresh)
  rw [show c.move (.begin (.call call expected)) = _ from heq]
  refine ⟨h.now, h.clock, h.link, ?_, ?_, h.table⟩
  · rw [h.jobs, h.nextJob]
  · rw [h.nextJob]

/-- A step of a call, which changes no more than the table and what is sent. -/
theorem step {stage' : CallStage} {table' : Table} {sent : List Json}
    (h : c.Stands jobs nextJob table) (hjob : jobs.get? i = some (.call call expected stage))
    (hstep : c.stepCall i call stage = .moved { c with table := table', sent := sent } stage') :
    (c.move (.advance i)).Stands (jobs.put i (.call call expected stage')) nextJob table' := by
  have hget : c.jobs.get? i = some (.call call expected stage) := by rw [h.jobs, hjob]
  have heq : c.move (.advance i) =
      { c with table := table', sent := sent }.setJob i (.call call expected stage') := by
    simp only [move, stepJob?, hget, hstep, Option.getD_some]
  rw [heq]
  exact ⟨h.now, h.clock, h.link, by rw [setJob, h.jobs], h.nextJob, rfl⟩

theorem enter {timeout : Option Nat} (h : c.Stands jobs nextJob table)
    (hjob : jobs.get? i = some (.call (plainCall timeout) expected .fresh)) :
    (c.move (.advance i)).Stands
      (jobs.put i (.call (plainCall timeout) expected (.entered table.newId table.slots.length)))
      nextJob
      (table.register "device.name" (some (timeout.getD table.defaultTimeout)) 0).1 := by
  have hstep : c.stepCall i (plainCall timeout) .fresh =
      .moved { c with
        table := (c.table.register "device.name" (some (timeout.getD c.table.defaultTimeout))
          c.clock).1 }
        (.entered c.table.newId c.table.slots.length) := rfl
  have hafter := h.step hjob hstep
  rwa [h.table, h.clock] at hafter

/-- A direct link that is up takes the frame at once. -/
theorem hand (h : c.Stands jobs nextJob table)
    (hjob : jobs.get? i = some (.call call expected (.entered id slot))) :
    (c.move (.advance i)).Stands
      (jobs.put i (.call call expected (.waiting id slot (call.timeout.getD table.defaultTimeout))))
      nextJob table := by
  have hstep : c.stepCall i call (.entered id slot) =
      .moved { c with sent := c.sent ++ [requestFrame call id] }
        (.waiting id slot (c.now + c.timeoutOf call)) := by
    simp only [stepCall, offer, h.link]
    rfl
  have hafter := h.step hjob hstep
  rwa [timeoutOf, h.now, Nat.zero_add, h.table] at hafter

theorem take {deadline : Nat} {outcome : Outcome} (h : c.Stands jobs nextJob table)
    (hjob : jobs.get? i = some (.call call expected (.waiting id slot deadline)))
    (hcontent : table.content slot = .filled outcome) :
    (c.move (.advance i)).Stands (jobs.put i (.call call expected (.over id slot outcome))) nextJob
      (table.takeOutcome slot).1 := by
  rw [← h.table] at hcontent ⊢
  have hstep : c.stepCall i call (.waiting id slot deadline) =
      .moved { c with table := (c.table.takeOutcome slot).1 } (.over id slot outcome) := by
    simp only [stepCall, lookInSlot, hcontent]
  exact h.step hjob hstep

theorem cancel (h : c.Stands jobs nextJob table)
    (hjob : jobs.get? i = some (.call call expected (.overdue id slot))) :
    (c.move (.advance i)).Stands
      (jobs.put i (.call call expected (.over id slot (.error .timeout)))) nextJob
      (table.cancel id).1 := by
  rw [← h.table]
  exact h.step hjob rfl

theorem drop (h : c.Stands jobs nextJob table)
    (hjob : jobs.get? i = some (.call call expected (.entered id slot))) :
    (c.move (.drop i)).Stands (jobs.erase i) nextJob (table.leave id slot) := by
  have heq : c.move (.drop i) = (c.leaveEntry id slot).removeJob i := by
    rw [move, dropJob, h.jobs, hjob]
    rfl
  rw [heq]
  refine ⟨h.now, h.clock, h.link, ?_, h.nextJob, ?_⟩
  · exact congrArg (Dictionary.erase · i) h.jobs
  · exact congrArg (Table.leave · id slot) h.table

/-- The call of a job, once it has entered the table. -/
theorem callAt (h : c.Stands jobs nextJob table)
    (hjob : jobs.get? i = some (.call call expected stage)) (hstage : stage ≠ .fresh) :
    c.callAt i = some (call, stage) :=
  (callAt_of_work? (h.jobs.symm ▸ hjob) rfl).trans (callOf?_call c hstage)

/-- The last step of a call tells its application the failure that it is over with. -/
theorem failsWith {f : Failure} (h : c.Stands jobs nextJob table)
    (hjob : jobs.get? i = some (.call call expected (.over id slot (.error f)))) :
    c.FailsWith i f := by
  have hget : c.jobs.get? i = some (.call call expected (.over id slot (.error f))) := by
    rw [h.jobs, hjob]
  have heq : c.move (.advance i) = (c.leaveEntry id slot).finish i (.error f) := by
    simp only [move, stepJob?, hget, stepCall, Option.getD_some, Except.bind]
  refine .call hget ?_ ?_
  · rw [heq]
    exact Dictionary.get?_erase_self _ _
  · rw [heq]
    rfl

/-- A step of a call brings no reply. -/
theorem replyIn?_eq_none (h : c.Stands jobs nextJob table)
    (hjob : jobs.get? i = some (.call call expected stage)) : c.replyIn? (.advance i) = none :=
  replyIn?_advance (by rw [h.jobs, hjob]; nofun)

end Stands

/-- Job 0 is past its deadline, and its id has no entry; `n` jobs have come and gone. -/
def Lapped (c : Client) (n : Nat) : Prop :=
  ∃ table, c.Stands [(0, .call (plainCall (some 0)) .nothing (.overdue 1 0))] (n + 1) table ∧
    table.pending = [] ∧ table.next = UInt64.ofNat (n + 2) ∧ table.slots.length = n + 1

theorem lapped_hangBack : ((ofSettings {} (.direct .up)).run hangBack).Lapped 0 := by
  refine ⟨_, ⟨?_, ?_, ?_, ?_, ?_, rfl⟩, ?_, ?_, ?_⟩ <;> decide +kernel

/-- One more lap leaves nothing in the table but its slot. -/
theorem Lapped.lap {c : Client} {n : Nat} (h : c.Lapped n) :
    (c.run [.begin (.call (plainCall none) .nothing), .advance (n + 1), .drop (n + 1)]).Lapped
      (n + 1) := by
  obtain ⟨table, h, hpending, hnext, hslots⟩ := h
  have hbegun := h.begin (plainCall none) .nothing
  have hentered := hbegun.enter (Dictionary.get?_put_self _ _ _)
  have hdropped := hentered.drop (Dictionary.get?_put_self _ _ _)
  obtain ⟨hid, hdrawn, hentry⟩ := Table.register_of_pending hpending "device.name"
    (some table.defaultTimeout) 0
  obtain ⟨hpending', hnext'⟩ := Table.leave_of_pending hentry table.slots.length
  rw [hid] at hdropped
  refine ⟨_, ?_, hpending', ?_, ?_⟩
  · simpa [Dictionary.put, Dictionary.erase] using hdropped
  · rw [hnext', hdrawn, hnext]
    exact (UInt64.ofNat_add (n + 2) 1).symm
  · rw [Table.slots_length_leave, Table.register, List.length_append, hslots,
      List.length_singleton]

theorem lapped_laps (n : Nat) :
    ((ofSettings {} (.direct .up)).run (hangBack ++ laps n)).Lapped n := by
  induction n with
  | zero =>
      rw [laps, List.append_nil]
      exact lapped_hangBack
  | succ n ih =>
      rw [laps, ← List.append_assoc, run_append]
      exact ih.lap

/-- Once the ids have gone round, the call that draws id 1 is cancelled by job 0. -/
theorem Lapped.timesOutEarly {c : Client} {n : Nat} (h : c.Lapped n)
    (hround : UInt64.ofNat (n + 2) = 1) :
    c.TimesOutEarly [.begin (.call (plainCall (some 1000)) .nothing), .advance (n + 1), .advance 0,
      .advance (n + 1), .advance (n + 1)] (n + 1) := by
  obtain ⟨table, h, hpending, hnext, -⟩ := h
  obtain ⟨hid, -, -⟩ := Table.register_of_pending hpending "device.name" (some 1000) 0
  have hid : table.newId = 1 := hid.trans (hnext.trans hround)
  have hcontent := Table.content_cancel_register table "device.name" (some 1000) 0
  rw [hid] at hcontent
  -- Job 0 and the new call are two jobs.
  have hfirst : ∀ (d : Dictionary JobId Job) job, (d.put (n + 1) job).get? 0 = d.get? 0 :=
    fun d job => d.get?_put_of_ne job (Nat.succ_ne_zero n).symm
  have hsecond : ∀ (d : Dictionary JobId Job) job, (d.put 0 job).get? (n + 1) = d.get? (n + 1) :=
    fun d job => d.get?_put_of_ne job (Nat.succ_ne_zero n)
  have hself := fun (d : Dictionary JobId Job) job => d.get?_put_self (n + 1) job
  have hbegun := h.begin (plainCall (some 1000)) .nothing
  have hentered := hbegun.enter (hself _ _)
  rw [hid] at hentered
  have hcancelled := hentered.cancel ((hfirst _ _).trans ((hfirst _ _).trans rfl))
  have hhanded := hcancelled.hand ((hsecond _ _).trans (hself _ _))
  have htaken := hhanded.take (hself _ _) hcontent
  refine ⟨htaken.failsWith (hself _ _), [.begin (.call (plainCall (some 1000)) .nothing)], _, _, _,
    _, rfl, ⟨rfl, ?_, hentered.callAt (hself _ _) nofun, ?_⟩, htaken.callAt (hself _ _) nofun, ?_,
    ?_⟩
  · exact (callAt_of_work? (hbegun.jobs.symm ▸ hself _ _) rfl).trans rfl
  · rw [run_cons, run_nil, hentered.table, Table.slotAt_register, if_pos rfl]
    rfl
  · rintro ⟨mid, m, after, r, e, hsplit, -, hreply, -⟩
    rcases mid with _ | ⟨m₁, _ | ⟨m₂, _ | ⟨m₃, mid⟩⟩⟩
    · cases hsplit
      have hnone := hentered.replyIn?_eq_none ((hfirst _ _).trans ((hfirst _ _).trans rfl))
      exact nomatch hnone.symm.trans hreply
    · cases hsplit
      have hnone := hcancelled.replyIn?_eq_none ((hsecond _ _).trans (hself _ _))
      exact nomatch hnone.symm.trans hreply
    · cases hsplit
      have hnone := hhanded.replyIn?_eq_none (hself _ _)
      exact nomatch hnone.symm.trans hreply
    · simp at hsplit
  · calc _ = 0 := htaken.now
      _ < 0 + 1000 := by decide
      _ = _ := congrArg (· + 1000) hbegun.now.symm

theorem TimesOutEarly.append {c : Client} {before moves : List Move} {i : JobId}
    (h : (c.run before).TimesOutEarly moves i) : c.TimesOutEarly (before ++ moves) i := by
  obtain ⟨hfails, mid, since, call, id, slot, rfl, hrest⟩ := h
  rw [← run_append, ← run_append] at *
  exact ⟨hfails, before ++ mid, since, call, id, slot, by simp, hrest⟩

/-- After as many laps as there are ids, a call times out early. -/
theorem timesOutEarly_once_ids_go_round :
    (ofSettings {} (.direct .up)).TimesOutEarly (overtaken (UInt64.size - 1)) UInt64.size :=
  ((lapped_laps (UInt64.size - 1)).timesOutEarly rfl).append

end Client

end GatewayClient
