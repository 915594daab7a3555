/-
Where the outcome of a call comes from.  A call is followed from the move at which it enters the
table: the first reply with its id, a sweep, its own deadline or a refusal of its frame decides its
outcome, whichever comes first, and nothing else does.
-/
import GatewayClient.Proofs.Client.Requests
import GatewayClient.Proofs.Client.Tally
import Mathlib.Data.List.Induction

namespace GatewayClient

namespace Client

open Table (slotId)

/-- The call of job `i`, of this id and slot, will take what its slot gets, and has got nothing. -/
def Unanswered (c : Client) (i : JobId) (id : UInt64) (slot : Nat) : Prop :=
  ∃ call stage, c.callAt i = some (call, stage) ∧ stage.entryOf? = some (id, slot) ∧
    stage.listened? = some slot ∧ (c.table.slotAt slot).content = .empty

/-- A move at which the outcome of the call of job `i` is decided, where `heard` are the replies
that have come in since the call entered the table: its first reply, a sweep that finds it expired,
its deadline, or the link's refusal of its frame. -/
inductive Decides (c : Client) (i : JobId) (id : UInt64) (slot : Nat) (heard : List Response)
    (m : Move) : Outcome → Prop where
  | reply {r : Response} (hopen : c.Unanswered i id slot) (hreply : c.replyIn? m = some r)
    (hid : r.callId? = some id) (hfirst : ∀ r' ∈ heard, r'.callId? ≠ some id) :
    Decides c i id slot heard m r.outcome
  | sweep {j : JobId} {next startedAt : Nat} {rest : List UInt64}
    (hopen : c.Unanswered i id slot) (hm : m = .advance j)
    (hjob : c.jobs.get? j = some (.sweep next (.removing startedAt (id :: rest))))
    (hexpired : c.table.hasExpired startedAt id = true)
    (hfirst : ∀ r' ∈ heard, r'.callId? ≠ some id) :
    Decides c i id slot heard m (.error .timeout)
  | deadline {call : Call} {deadline : Nat} (hopen : c.Unanswered i id slot) (hm : m = .advance i)
    (hcall : c.callAt i = some (call, .waiting id slot deadline)) (hdeadline : deadline ≤ c.now)
    (hfirst : ∀ r' ∈ heard, r'.callId? ≠ some id) :
    Decides c i id slot heard m (.error .timeout)
  | refusal {call : Call} {stage : CallStage} (hm : m = .advance i)
    (hcall : c.callAt i = some (call, stage)) (hunsent : stage.unsent? = some id)
    (hover : (c.move m).callAt i = some (call, .over id slot (.error .notConnected))) :
    Decides c i id slot heard m (.error .notConnected)

/-- A move of a run has decided the outcome of the call of job `i`. -/
def Decided (c : Client) (i : JobId) (id : UInt64) (slot : Nat) (moves : List Move)
    (outcome : Outcome) : Prop :=
  ∃ before m after, moves = before ++ m :: after ∧
    (c.run before).Decides i id slot (c.replies before) m outcome

/-- How far the call of job `i` is, in a run since it entered the table. -/
inductive Trace (c : Client) (i : JobId) (id : UInt64) (slot : Nat) (moves : List Move) :
    CallStage → Prop where
  | unheard {stage : CallStage} (hlistened : stage.listened? = some slot)
    (hempty : ((c.run moves).table.slotAt slot).content = .empty)
    (hheard : ∀ r ∈ c.replies moves, r.callId? ≠ some id) : Trace c i id slot moves stage
  | given {stage : CallStage} {outcome : Outcome} (hlistened : stage.listened? = some slot)
    (hfilled : ((c.run moves).table.slotAt slot).content = .filled outcome)
    (hdecided : c.Decided i id slot moves outcome) : Trace c i id slot moves stage
  | overdue (hdecided : c.Decided i id slot moves (.error .timeout)) :
    Trace c i id slot moves (.overdue id slot)
  | ended {outcome : Outcome} (hdecided : c.Decided i id slot moves outcome) :
    Trace c i id slot moves (.over id slot outcome)

section trace

variable {c : Client} {i : JobId} {id : UInt64} {slot : Nat} {moves : List Move} {m : Move}

theorem Decided.concat {outcome : Outcome} (h : c.Decided i id slot moves outcome) (m : Move) :
    c.Decided i id slot (moves ++ [m]) outcome := by
  obtain ⟨before, m', after, rfl, hdecides⟩ := h
  exact ⟨before, m', after ++ [m], by simp, hdecides⟩

/-- The last move of a run decides. -/
theorem Decides.decided {outcome : Outcome}
    (h : (c.run moves).Decides i id slot (c.replies moves) m outcome) :
    c.Decided i id slot (moves ++ [m]) outcome :=
  ⟨moves, m, [], rfl, h⟩

theorem replies_concat (c : Client) (moves : List Move) (m : Move) :
    c.replies (moves ++ [m]) = c.replies moves ++ ((c.run moves).replyIn? m).toList := by
  rw [replies_append, replies, replies, List.append_nil]

theorem unheard_concat (hheard : ∀ r ∈ c.replies moves, r.callId? ≠ some id)
    (hlast : ∀ r, (c.run moves).replyIn? m = some r → r.callId? ≠ some id) :
    ∀ r ∈ c.replies (moves ++ [m]), r.callId? ≠ some id := by
  intro r hr
  rw [replies_concat, List.mem_append, Option.mem_toList] at hr
  rcases hr with hr | hr
  · exact hheard r hr
  · exact hlast r hr

namespace Trace

variable {stage : CallStage}

/-- A move that leaves the call and its slot alone and brings no reply to it. -/
theorem keep (h : Trace c i id slot moves stage)
    (hslot : ((c.run moves).move m).table.slotAt slot = (c.run moves).table.slotAt slot)
    (hlast : ∀ r, (c.run moves).replyIn? m = some r → r.callId? ≠ some id) :
    Trace c i id slot (moves ++ [m]) stage := by
  cases h with
  | unheard hlistened hempty hheard =>
      refine .unheard hlistened ?_ (unheard_concat hheard hlast)
      rw [run_concat, hslot]
      exact hempty
  | given hlistened hfilled hdecided =>
      refine .given hlistened ?_ (hdecided.concat m)
      rw [run_concat, hslot]
      exact hfilled
  | overdue hdecided => exact .overdue (hdecided.concat m)
  | ended hdecided => exact .ended (hdecided.concat m)

/-- A move that gives an outcome to the slot of the call if it is empty, and says why. -/
theorem give (h : Trace c i id slot moves stage) {outcome : Outcome}
    (hlistening : stage.listened? = some slot →
      ((c.run moves).table.slotAt slot).listening = true)
    (hempty : ((c.run moves).table.slotAt slot).content = .empty →
      ((c.run moves).move m).table.slotAt slot =
        ((c.run moves).table.slotAt slot).fill outcome)
    (hkept : ((c.run moves).table.slotAt slot).content ≠ .empty →
      ((c.run moves).move m).table.slotAt slot = (c.run moves).table.slotAt slot)
    (hdecides : stage.listened? = some slot →
      ((c.run moves).table.slotAt slot).content = .empty →
      (∀ r ∈ c.replies moves, r.callId? ≠ some id) →
      (c.run moves).Decides i id slot (c.replies moves) m outcome) :
    Trace c i id slot (moves ++ [m]) stage := by
  cases h with
  | unheard hlistened hcontent hheard =>
      refine .given hlistened ?_ (hdecides hlistened hcontent hheard).decided
      rw [run_concat, hempty hcontent, Slot.fill, if_pos (hlistening hlistened)]
  | given hlistened hfilled hdecided =>
      refine .given hlistened ?_ (hdecided.concat m)
      rw [run_concat, hkept (by rw [hfilled]; exact SlotContent.noConfusion)]
      exact hfilled
  | overdue hdecided => exact .overdue (hdecided.concat m)
  | ended hdecided => exact .ended (hdecided.concat m)

/-- The slot that a call listens to is empty, or has an outcome that has been decided. -/
theorem listening (h : Trace c i id slot moves stage) (hlistened : stage.listened? = some slot) :
    (((c.run moves).table.slotAt slot).content = .empty ∧
        ∀ r ∈ c.replies moves, r.callId? ≠ some id) ∨
      ∃ outcome, ((c.run moves).table.slotAt slot).content = .filled outcome ∧
        c.Decided i id slot moves outcome := by
  cases h with
  | unheard _ hempty hheard => exact .inl ⟨hempty, hheard⟩
  | given _ hfilled hdecided => exact .inr ⟨_, hfilled, hdecided⟩
  | overdue | ended => cases hlistened

/-- A call that goes on listening. -/
theorem relisten (h : Trace c i id slot moves stage) {stage' : CallStage}
    (hlistened : stage.listened? = some slot) (hlistened' : stage'.listened? = some slot) :
    Trace c i id slot moves stage' := by
  rcases h.listening hlistened with ⟨hempty, hheard⟩ | ⟨outcome, hfilled, hdecided⟩
  · exact .unheard hlistened' hempty hheard
  · exact .given hlistened' hfilled hdecided

/-- A step of the call itself. -/
theorem own (h : Trace c i id slot moves stage) {call : Call} {stage' : CallStage} {table : Table}
    {sent : List Json} (hm : m = .advance i) (hreply : (c.run moves).replyIn? m = none)
    (hcall : (c.run moves).callAt i = some (call, stage))
    (hentry : stage.entryOf? = some (id, slot))
    (hstep : CallStep (c.run moves) call stage table sent stage')
    (htable : ((c.run moves).move m).table = table)
    (hown : ((c.run moves).move m).callAt i = some (call, stage')) :
    Trace c i id slot (moves ++ [m]) stage' := by
  have hkept (hsame : table = (c.run moves).table) : Trace c i id slot (moves ++ [m]) stage :=
    h.keep (by rw [htable, hsame]) fun r hr => nomatch hreply.symm.trans hr
  cases hstep with
  | enter hparams => cases hentry
  | hand hunsent hentry' =>
      obtain ⟨slot', hentry'', hlistened⟩ := CallStage.entryOf?_of_unsent? hunsent
      rw [hentry] at hentry' hentry''
      cases hentry'
      cases hentry''
      exact (hkept rfl).relisten hlistened rfl
  | queue =>
      cases hentry
      exact (hkept rfl).relisten rfl rfl
  | refuse hunsent hentry' =>
      rw [hentry] at hentry'
      cases hentry'
      exact .ended (Decides.refusal hm hcall hunsent hown).decided
  | take hcontent =>
      cases hentry
      rw [Table.content_eq] at hcontent
      rcases h.listening rfl with ⟨hempty, -⟩ | ⟨outcome, hfilled, hdecided⟩
      · exact nomatch hcontent.symm.trans hempty
      · cases hcontent.symm.trans hfilled
        exact .ended (hdecided.concat m)
  | miss hcontent =>
      cases hentry
      rw [Table.content_eq] at hcontent
      rcases h.listening rfl with ⟨hempty, -⟩ | ⟨outcome, hfilled, -⟩
      · exact nomatch hcontent.symm.trans hempty
      · exact nomatch hcontent.symm.trans hfilled
  | expire hcontent hdeadline =>
      cases hentry
      rw [Table.content_eq] at hcontent
      rcases h.listening rfl with ⟨hempty, hheard⟩ | ⟨outcome, hfilled, -⟩
      · have hopen : (c.run moves).Unanswered i id slot :=
          ⟨call, _, hcall, rfl, rfl, hempty⟩
        exact .overdue (Decides.deadline hopen hm hcall hdeadline hheard).decided
      · exact nomatch hcontent.symm.trans hfilled
  | cancel =>
      cases hentry
      cases h with
      | unheard hlistened hempty hheard => cases hlistened
      | given hlistened hfilled hdecided => cases hlistened
      | overdue hdecided => exact .ended (hdecided.concat m)

/-- A reply that comes in decides if it has the id of the call and is the first. -/
theorem reply (h : Trace c i id slot moves stage) (hmatched : (c.run moves).Matched)
    (hroom : (c.run moves).table.slots.length < UInt64.size) {call : Call}
    (hcall : (c.run moves).callAt i = some (call, stage))
    (hentry : stage.entryOf? = some (id, slot)) {r : Response}
    (hreply : (c.run moves).replyIn? m = some r)
    (htable : ((c.run moves).move m).table = (c.run moves).tableAfter r) :
    Trace c i id slot (moves ++ [m]) stage := by
  obtain ⟨rfl, hslot⟩ := hmatched.entry i id slot ((entryAt_of_callAt hcall).trans hentry)
  have hresolve := hmatched.table.slotAt_resolve hroom hslot
  by_cases hid : r.callId? = some (slotId slot)
  · rw [tableAfter, hid] at htable
    apply h.give fun hlistened => (hmatched.listens i call stage slot hcall hlistened).1
    · intro hempty
      rw [htable, hresolve, if_pos ⟨rfl, hempty⟩]
    · intro hfull
      rw [htable, hresolve, if_neg fun hcond => hfull hcond.2]
    · intro hlistened hempty hheard
      exact .reply ⟨call, stage, hcall, hentry, hlistened, hempty⟩ hreply hid hheard
  · apply h.keep
    · rw [htable, tableAfter]
      split
      · next other hother =>
          rw [hresolve, if_neg]
          rintro ⟨rfl, -⟩
          exact hid hother
      · rfl
    · intro r' hr'
      rw [hreply] at hr'
      cases hr'
      exact hid

/-- A sweep decides if it ends the call before a reply has come. -/
theorem sweep (h : Trace c i id slot moves stage) (hmatched : (c.run moves).Matched)
    (hroom : (c.run moves).table.slots.length < UInt64.size) {call : Call}
    (hcall : (c.run moves).callAt i = some (call, stage))
    (hentry : stage.entryOf? = some (id, slot)) {j : JobId} {next startedAt : Nat} {id' : UInt64}
    {rest : List UInt64} (hm : m = .advance j)
    (hsilent : ∀ r, (c.run moves).replyIn? m = some r → r.callId? ≠ some id)
    (hjob : (c.run moves).jobs.get? j = some (.sweep next (.removing startedAt (id' :: rest))))
    (htable : ((c.run moves).move m).table =
      ((c.run moves).table.removeIfExpired startedAt id').1) :
    Trace c i id slot (moves ++ [m]) stage := by
  obtain ⟨rfl, hslot⟩ := hmatched.entry i id slot ((entryAt_of_callAt hcall).trans hentry)
  have hremove := hmatched.table.slotAt_removeIfExpired hroom hslot startedAt id'
  by_cases hcond : id' = slotId slot ∧ (c.run moves).table.hasExpired startedAt id' = true
  · obtain ⟨rfl, hexpired⟩ := hcond
    apply h.give fun hlistened => (hmatched.listens i call stage slot hcall hlistened).1
    · intro hempty
      rw [htable, hremove, if_pos ⟨⟨rfl, hempty⟩, hexpired⟩]
    · intro hfull
      rw [htable, hremove, if_neg fun hcond => hfull hcond.1.2]
    · intro hlistened hempty hheard
      exact .sweep ⟨call, stage, hcall, hentry, hlistened, hempty⟩ hm hjob hexpired hheard
  · refine h.keep ?_ hsilent
    rw [htable, hremove, if_neg fun hall => hcond ⟨hall.1.1, hall.2⟩]

/-- A move after which the call is still under way. -/
theorem move (h : Trace c i id slot moves stage) (hmatched : (c.run moves).Matched)
    (hroom : ((c.run moves).move m).table.slots.length < UInt64.size) {call call' : Call}
    {stage' : CallStage} (hcall : (c.run moves).callAt i = some (call, stage))
    (hentry : stage.entryOf? = some (id, slot))
    (hnext : ((c.run moves).move m).callAt i = some (call', stage')) :
    Trace c i id slot (moves ++ [m]) stage' := by
  have hbefore := Nat.lt_of_le_of_lt (slots_length_le_move hmatched.numbered m) hroom
  have hat : (c.run moves).entryAt i = some (id, slot) := (entryAt_of_callAt hcall).trans hentry
  -- The stage is the same if nobody but the table was at work.
  have hsame : ∀ {table sent}, Seen (c.run moves) ((c.run moves).move m) table sent
      (c.run moves).callAt → stage' = stage := by
    intro table sent hseen
    rw [hseen.calls, hcall] at hnext
    cases hnext
    rfl
  have hsilent : (c.run moves).replyIn? m = none →
      ∀ r, (c.run moves).replyIn? m = some r → r.callId? ≠ some id := by
    intro hreply r hr
    rw [hreply] at hr
    cases hr
  cases callCase hmatched.numbered m with
  | quiet hreply hseen =>
      rw [hsame hseen]
      exact h.keep (by rw [hseen.table]) (hsilent hreply)
  | reply hreply hseen =>
      rw [hsame hseen]
      exact h.reply hmatched hbefore hcall hentry hreply hseen.table
  | sweep hm hreply hjob hseen =>
      rw [hsame hseen]
      exact h.sweep hmatched hbefore hcall hentry hm (hsilent hreply) hjob hseen.table
  | @step j call'' stage₁ stage₂ table sent hm hreply hcall' hstep hsent hseen =>
      by_cases hj : j = i
      · subst hj
        have hown := hseen.own
        rw [hnext] at hown
        cases hown
        rcases hcall' with ⟨-, hnone⟩ | hcall'
        · rw [hnone] at hcall
          cases hcall
        · rw [hcall] at hcall'
          cases hcall'
          exact h.own hm hreply hcall hentry hstep hseen.table hseen.own
      · rw [hseen.others i (Ne.symm hj), hcall] at hnext
        cases hnext
        refine h.keep ?_ (hsilent hreply)
        rw [hseen.table]
        exact hmatched.slotAt_of_step hbefore hat hcall' hstep hj
  | @leave j call'' stage₁ id' slot' hm hreply hcall' hentry' hsent hseen =>
      by_cases hj : j = i
      · subst hj
        rw [hseen.own] at hnext
        cases hnext
      · rw [hseen.others i (Ne.symm hj), hcall] at hnext
        cases hnext
        refine h.keep ?_ (hsilent hreply)
        have hat' := (entryAt_of_callAt hcall').trans hentry'
        rw [hseen.table]
        exact hmatched.slotAt_of_leave hbefore hat hat' hj

end Trace

end trace

/-- The move at which job `i` enters the table with a call, under an id and with a slot. -/
structure Enters (c : Client) (m : Move) (i : JobId) (call : Call) (id : UInt64) (slot : Nat) :
    Prop where
  move_eq : m = .advance i
  before : c.callAt i = none
  after : (c.move m).callAt i = some (call, .entered id slot)
  empty : ((c.move m).table.slotAt slot).content = .empty

/-- A call that is under way after a move was under way before it, or has entered the table. -/
theorem callAt_of_move {c : Client} (hnumbered : c.Numbered) {m : Move} {i : JobId} {call : Call}
    {stage : CallStage} {id : UInt64} {slot : Nat}
    (hcall : (c.move m).callAt i = some (call, stage)) (hentry : stage.entryOf? = some (id, slot)) :
    (∃ stage', c.callAt i = some (call, stage') ∧ stage'.entryOf? = some (id, slot)) ∨
      (c.Enters m i call id slot ∧ stage = .entered id slot ∧ slot = c.table.slots.length) := by
  cases callCase hnumbered m with
  | quiet hreply h =>
      rw [h.calls] at hcall
      exact Or.inl ⟨stage, hcall, hentry⟩
  | reply hreply h =>
      rw [h.calls] at hcall
      exact Or.inl ⟨stage, hcall, hentry⟩
  | sweep hm hreply hjob h =>
      rw [h.calls] at hcall
      exact Or.inl ⟨stage, hcall, hentry⟩
  | @step j call' stage₁ stage₂ table sent hm hreply hcall' hstep hsent h =>
      by_cases hj : i = j
      · subst hj
        have hafter := hcall
        rw [h.own] at hcall
        cases hcall
        rcases hcall' with ⟨rfl, hnone⟩ | hcall'
        · cases hstep with
          | enter hparams =>
              cases hentry
              refine Or.inr ⟨⟨hm, hnone, hafter, ?_⟩, rfl, rfl⟩
              rw [h.table, Table.slotAt_register, if_pos rfl]
              rfl
          | hand hunsent hentry' => cases hentry'
          | refuse hunsent hentry' => cases hentry'
        · obtain ⟨id', slot', hentry', ⟨rfl, -⟩ | hsame⟩ := hstep.entryOf?_eq
          · obtain ⟨id', slot', hfresh⟩ := entryOf?_of_callAt hcall'
            cases hfresh
          · rw [hentry'] at hentry
            cases hentry
            exact Or.inl ⟨stage₁, hcall', hsame⟩
      · rw [h.others i hj] at hcall
        exact Or.inl ⟨stage, hcall, hentry⟩
  | @leave j call' stage₁ id' slot' hm hreply hcall' hentry' hsent h =>
      by_cases hj : i = j
      · subst hj
        rw [h.own] at hcall
        cases hcall
      · rw [h.others i hj] at hcall
        exact Or.inl ⟨stage, hcall, hentry⟩

/-- Every call under way has entered the table at some move of the run. -/
theorem exists_enters {c : Client} (hnumbered : c.Numbered) (hnone : ∀ i, c.callAt i = none)
    {moves : List Move} {i : JobId} {call : Call} {stage : CallStage} {id : UInt64} {slot : Nat}
    (hcall : (c.run moves).callAt i = some (call, stage))
    (hentry : stage.entryOf? = some (id, slot)) :
    ∃ before since, moves = before ++ .advance i :: since ∧
      (c.run before).Enters (.advance i) i call id slot := by
  induction moves using List.reverseRecOn generalizing stage with
  | nil =>
      rw [run_nil, hnone] at hcall
      cases hcall
  | append_singleton moves m ih =>
      rw [run_concat] at hcall
      rcases callAt_of_move (hnumbered.run moves) hcall hentry with
        ⟨stage', hcall', hentry'⟩ | ⟨henters, -, -⟩
      · obtain ⟨before, since, rfl, henters⟩ := ih hcall' hentry'
        exact ⟨before, since ++ [m], by simp, henters⟩
      · obtain rfl := henters.move_eq
        exact ⟨moves, [], rfl, henters⟩

/-- A call under way, seen from the move at which it has entered the table. -/
theorem Enters.trace {c : Client} (hmatched : c.Matched) {m : Move} {i : JobId} {call : Call}
    {id : UInt64} {slot : Nat} (henters : c.Enters m i call id slot) {since : List Move}
    (hroom : ((c.move m).run since).table.slots.length < UInt64.size) {call' : Call}
    {stage : CallStage} (hcall : ((c.move m).run since).callAt i = some (call', stage))
    (hentry : stage.entryOf? = some (id, slot)) :
    Trace (c.move m) i id slot since stage := by
  have hnumbered := hmatched.numbered.move m
  have hstart : (c.move m).Matched :=
    hmatched.move m (Nat.lt_of_le_of_lt (slots_length_le_run hnumbered since) hroom)
  have hmade : slot < (c.move m).table.slots.length :=
    (hstart.entry i id slot (entryAt_of_callAt henters.after)).2
  induction since using List.reverseRecOn generalizing call' stage with
  | nil =>
      rw [run_nil, henters.after] at hcall
      cases hcall
      exact .unheard rfl henters.empty (by simp [replies])
  | append_singleton since m' ih =>
      rw [run_concat] at hcall hroom
      have hbefore := Nat.lt_of_le_of_lt (slots_length_le_move (hnumbered.run since) m') hroom
      have hrun := hstart.run since hbefore
      rcases callAt_of_move (hnumbered.run since) hcall hentry with
        ⟨stage', hcall', hentry'⟩ | ⟨-, -, hlast⟩
      · exact (ih hbefore hcall' hentry').move hrun hroom hcall' hentry' hcall
      · exact absurd (slots_length_le_run hnumbered since) (by omega)

/-- A reply changes the stage of no call, and the slot of none but the one whose id it has. -/
theorem reply_addresses {c : Client} (hmatched : c.Matched)
    (hroom : c.table.slots.length < UInt64.size) {m : Move} {r : Response}
    (hreply : c.replyIn? m = some r) :
    (∀ i, (c.move m).callAt i = c.callAt i) ∧
      ∀ i id slot, c.entryAt i = some (id, slot) → r.callId? ≠ some id →
        (c.move m).table.slotAt slot = c.table.slotAt slot := by
  cases callCase hmatched.numbered m with
  | @reply r' hreply' hseen =>
      rw [hreply] at hreply'
      cases hreply'
      refine ⟨hseen.calls, fun i id slot hentry hid => ?_⟩
      obtain ⟨rfl, hslot⟩ := hmatched.entry i id slot hentry
      rw [hseen.table, tableAfter]
      split
      · next other hother =>
          rw [hmatched.table.slotAt_resolve hroom hslot, if_neg]
          rintro ⟨rfl, -⟩
          exact hid hother
      · rfl
  | quiet hnone hseen =>
      rw [hreply] at hnone
      cases hnone
  | sweep hm hnone hjob hseen =>
      rw [hreply] at hnone
      cases hnone
  | step hm hnone hcall hstep hsent hseen =>
      rw [hreply] at hnone
      cases hnone
  | leave hm hnone hcall hentry hsent hseen =>
      rw [hreply] at hnone
      cases hnone

/-- A call that returns to an application returns what it is over with, as far as that can be read,
or has params that cannot be written. -/
theorem told_of_gone {c : Client} {i : JobId} {call : Call} {expected : Expected}
    {stage : CallStage} (hjob : c.jobs.get? i = some (.call call expected stage))
    (hgone : (c.move (.advance i)).jobs.get? i = none) :
    ∃ outcome, (c.move (.advance i)).finished = c.finished ++ [(i, outcome.bind expected.read)] ∧
      ((∃ id slot, stage = .over id slot outcome) ∨
        stage = .fresh ∧ call.params = none ∧ outcome = .error .invalidParams) := by
  cases hstep : c.stepCall i call stage with
  | blocked =>
      simp only [move, stepJob?, hjob, hstep, Option.getD_none, pause] at hgone
      cases hgone
  | moved client stage' =>
      simp only [move, stepJob?, hjob, hstep, Option.getD_some, setJob,
        Dictionary.get?_put_self] at hgone
      cases hgone
  | «over» client outcome =>
      have hmove : c.move (.advance i) = client.finish i (outcome.bind expected.read) := by
        simp only [move, stepJob?, hjob, hstep, Option.getD_some]
      rw [hmove]
      rcases stepCall_over hstep with ⟨rfl, hparams, rfl, rfl⟩ | ⟨id, slot, rfl, rfl⟩
      · exact ⟨_, rfl, .inr ⟨rfl, hparams, rfl⟩⟩
      · exact ⟨_, rfl, .inl ⟨id, slot, rfl⟩⟩

/-- A change whose call is done comes to success or fails as the call is over. -/
theorem over_of_releasing {c : Client} (hnumbered : c.Numbered) {i : JobId} {change : Change}
    {stage : CallStage} {result : Except Failure Changed}
    (hwork : c.workAt i = some (.change change (.calling stage)))
    (hafter : (c.move (.advance i)).workAt i = some (.change change (.releasing result))) :
    ∃ id slot outcome, c.callAt i = some (c.changeCall change, .over id slot outcome) ∧
      ∀ f, result = .error f ↔ outcome = .error f := by
  cases moveCase hnumbered (.advance i) with
  | quiet hreply hquiet | reply hreply hquiet | sweep hm hjob hquiet =>
      have hsame := hquiet.work hnumbered i
      rw [hafter] at hsame
      cases hsame.trans hwork
  | @turn j job work work' c₁ hm hjob hwork' hturn hleaves =>
      cases hm
      have hown := hleaves.work i
      rw [if_pos rfl, hafter] at hown
      rw [workAt_of_get? hjob, Job.begun?, hwork'] at hwork
      cases (Option.filter_eq_some_iff.mp hwork).1
      subst hown
      cases hturn with
      | change hmoved =>
          cases stepChange_moved hmoved with
          | settle hover | fail hover =>
              rcases stepCall_over hover with ⟨-, hparams, -, -⟩ | ⟨id, slot, rfl, -⟩
              · cases hparams
              · exact ⟨id, slot, _, callAt_of_work? hjob hwork', fun f => by simp⟩
  | drop hm hjob hwork' hleaves => cases hm

/-- In a run, calls and replies are matched one to one.  Calls under way have different ids, no id
is requested twice, and each request has the id of the call that hands it over.  The outcome of a
call, which is what it returns, has been decided since it entered the table, and a reply that is for
nobody leaves everything as it is but the tally. -/
structure OneToOne (c : Client) (moves : List Move) : Prop where
  ids : ∀ i j id slot slot', (c.run moves).entryAt i = some (id, slot) →
    (c.run moves).entryAt j = some (id, slot') → i = j
  requests : (c.run moves).requestIds.Nodup
  handed : ∀ before m after, moves = before ++ m :: after →
    ((c.run before).move m).requestIds = (c.run before).requestIds ∨
      ∃ i call id, (c.run before).HandsOver m i call id
  results : ∀ i call id slot outcome,
    (c.run moves).callAt i = some (call, .over id slot outcome) →
    ∃ before since, moves = before ++ .advance i :: since ∧
      (c.run before).Enters (.advance i) i call id slot ∧
      ((c.run before).move (.advance i)).Decided i id slot since outcome
  returned : ∀ i call expected stage,
    (c.run moves).jobs.get? i = some (.call call expected stage) →
    ((c.run moves).move (.advance i)).jobs.get? i = none →
    ∃ outcome, ((c.run moves).move (.advance i)).finished =
        (c.run moves).finished ++ [(i, outcome.bind expected.read)] ∧
      ((∃ id slot, stage = .over id slot outcome) ∨
        stage = .fresh ∧ call.params = none ∧ outcome = .error .invalidParams)
  settled : ∀ i change stage result,
    (c.run moves).workAt i = some (.change change (.calling stage)) →
    ((c.run moves).move (.advance i)).workAt i = some (.change change (.releasing result)) →
    ∃ id slot outcome, (c.run moves).callAt i =
        some ((c.run moves).changeCall change, .over id slot outcome) ∧
      ∀ f, result = .error f ↔ outcome = .error f
  addressed : ∀ before m after r, moves = before ++ m :: after →
    (c.run before).replyIn? m = some r →
    (∀ i, ((c.run before).move m).callAt i = (c.run before).callAt i) ∧
      ∀ i id slot, (c.run before).entryAt i = some (id, slot) → r.callId? ≠ some id →
        ((c.run before).move m).table.slotAt slot = (c.run before).table.slotAt slot
  strays : ∀ before m after r, moves = before ++ m :: after →
    (c.run before).replyIn? m = some r → (c.run before).Stray r →
    ∃ tally, c.run moves = (((c.run before).withoutFrame m).run after).withTally tally

/-- As long as fewer ids than there are words have been drawn, that is, slots made, calls and
replies are matched one to one. -/
theorem calls_one_to_one (settings : Settings) (link : Link) (moves : List Move)
    (hdrawn : ((ofSettings settings link).run moves).table.slots.length < UInt64.size) :
    (ofSettings settings link).OneToOne moves := by
  have hstart := Matched.ofSettings settings link
  have hdrawnAt : ∀ {before m after}, moves = before ++ m :: after →
      ((ofSettings settings link).run before).table.slots.length < UInt64.size := by
    rintro before m after rfl
    rw [run_append] at hdrawn
    exact Nat.lt_of_le_of_lt
      (slots_length_le_run (hstart.numbered.run before) (m :: after)) hdrawn
  refine ⟨?_, ?_, ?_, ?_, fun i call expected stage => told_of_gone,
    fun i change stage result => over_of_releasing (hstart.numbered.run moves), ?_, ?_⟩
  · intro i j id slot slot' hi hj
    exact (hstart.run moves hdrawn).eq_of_id hdrawn hi hj
  · exact ((Handed.ofSettings settings link).run hstart moves hdrawn).nodup
  · intro before m after _
    exact requestIds_move (hstart.numbered.run before) m
  · intro i call id slot outcome hcall
    obtain ⟨before, since, rfl, henters⟩ :=
      exists_enters hstart.numbered (fun i => rfl) hcall rfl
    refine ⟨before, since, rfl, henters, ?_⟩
    have hbefore := hdrawnAt rfl
    rw [run_append, run_cons] at hdrawn hcall
    have htrace := henters.trace (hstart.run before hbefore) hdrawn hcall rfl
    cases htrace with
    | ended hdecided => exact hdecided
    | unheard hlistened => cases hlistened
    | given hlistened => cases hlistened
  · intro before m after r heq hreply
    exact reply_addresses (hstart.run before (hdrawnAt heq)) (hdrawnAt heq) hreply
  · rintro before m after r rfl hreply hstray
    rw [run_append, run_cons]
    exact run_of_stray hreply hstray after

/-- A call that gets its reply is over with what the reply carries, and the run is one to one. -/
theorem calls_one_to_one_reply :
    let moves : List Move :=
      [.begin (.call ⟨"device.name", some (.object []), none⟩ .nothing), .advance 0, .advance 0,
        .deliver "\x7b\"id\":1,\"result\":true\x7d" true, .advance 0]
    let client := (ofSettings {} (.direct .up)).run moves
    client.table.slots.length < UInt64.size ∧
      (client.callAt 0).map Prod.snd = some (.over 1 0 (.ok (.bool true))) ∧
      (ofSettings {} (.direct .up)).OneToOne moves :=
  ⟨by decide, rfl, calls_one_to_one {} (.direct .up) _ (by decide)⟩

end Client

end GatewayClient
