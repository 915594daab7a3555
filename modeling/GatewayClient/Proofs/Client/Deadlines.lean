/-
Deadlines.  The deadline of a call counts from when its frame was handed over; a call that waits for
room on a full channel has none yet.  If time passes only while every job is at rest, a call that
never had to wait for room is over by the deadline that counts from when it entered the table, and a
change that never had to lets go of its gate within the subscribe timeout.
-/
import GatewayClient.Proofs.Client.FirstReply
import GatewayClient.Proofs.Client.OwnStep
import GatewayClient.Proofs.Client.Passing
import GatewayClient.Proofs.Client.Reserved

namespace GatewayClient

namespace Table

theorem defaultTimeout_conclude (t : Table) (id : UInt64) (change : Slot → Slot) :
    (t.conclude id change).defaultTimeout = t.defaultTimeout := by
  rw [conclude]
  split <;> rfl

@[simp] theorem defaultTimeout_resolve (t : Table) (id : UInt64) (outcome : Outcome) :
    (t.resolve id outcome).1.defaultTimeout = t.defaultTimeout := by
  obtain ⟨tally, heq⟩ := resolve_eq_conclude t id outcome
  rw [heq, defaultTimeout_conclude]

@[simp] theorem defaultTimeout_cancel (t : Table) (id : UInt64) :
    (t.cancel id).1.defaultTimeout = t.defaultTimeout := by
  obtain ⟨tally, heq⟩ := cancel_eq_conclude t id
  rw [heq, defaultTimeout_conclude]

@[simp] theorem defaultTimeout_abandon (t : Table) (id : UInt64) :
    (t.abandon id).1.defaultTimeout = t.defaultTimeout := by
  obtain ⟨tally, heq⟩ := abandon_eq_conclude t id
  rw [heq, defaultTimeout_conclude]

theorem defaultTimeout_removeIfExpired (t : Table) (now : Nat) (id : UInt64) :
    (t.removeIfExpired now id).1.defaultTimeout = t.defaultTimeout := by
  rw [removeIfExpired_eq]
  split
  · exact defaultTimeout_cancel t id
  · rfl

theorem defaultTimeout_takeOutcome (t : Table) (slot : Nat) :
    (t.takeOutcome slot).1.defaultTimeout = t.defaultTimeout := by
  rw [takeOutcome]
  split <;> rfl

end Table

namespace Client

variable {c c' : Client} {i : JobId} {m : Move} {call : Call} {stage stage' : CallStage}
  {change : Change} {table : Table} {sent : List Json} {id : UInt64} {slot deadline since : Nat}
  {moves : List Move}

theorem CallStep.defaultTimeout (h : CallStep c call stage table sent stage') :
    table.defaultTimeout = c.table.defaultTimeout := by
  cases h with
  | enter | hand | queue | miss | expire => rfl
  | refuse => exact Table.defaultTimeout_abandon _ _
  | take => exact Table.defaultTimeout_takeOutcome _ _
  | cancel => exact Table.defaultTimeout_cancel _ _

/-- The timeout of a call does not change. -/
theorem timeoutOf_move (hnumbered : c.Numbered) (m : Move) (call : Call) :
    (c.move m).timeoutOf call = c.timeoutOf call := by
  suffices h : (c.move m).table.defaultTimeout = c.table.defaultTimeout by
    rw [timeoutOf, h, timeoutOf]
  cases callCase hnumbered m with
  | quiet _ h => rw [h.table]
  | reply _ h =>
      rw [h.table, tableAfter]
      split
      · exact Table.defaultTimeout_resolve _ _ _
      · rfl
  | sweep _ _ _ h => rw [h.table, Table.defaultTimeout_removeIfExpired]
  | step _ _ _ hstep _ h => rw [h.table, hstep.defaultTimeout]
  | leave _ _ _ _ _ h => rw [h.table]; exact Table.defaultTimeout_abandon _ _

theorem timeoutOf_run (hnumbered : c.Numbered) (moves : List Move) (call : Call) :
    (c.run moves).timeoutOf call = c.timeoutOf call := by
  induction moves generalizing c with
  | nil => rfl
  | cons m rest ih => rw [run_cons, ih (hnumbered.move m), timeoutOf_move hnumbered m]

/-- No job can go on: whatever could be done without time passing has been done. -/
def Resting (c : Client) : Prop :=
  ∀ entry ∈ c.jobs, c.stepJob? entry.1 = none

instance Resting.decidable (c : Client) : Decidable c.Resting :=
  inferInstanceAs (Decidable (∀ entry ∈ c.jobs, c.stepJob? entry.1 = none))

theorem Resting.stuck (h : c.Resting) (i : JobId) : c.stepJob? i = none := by
  cases hget : c.jobs.get? i with
  | none => rw [stepJob?, hget]
  | some job => exact h _ (Dictionary.mem_of_get? hget)

theorem Resting.move_advance (h : c.Resting) (i : JobId) :
    c.move (.advance i) = c.pause i := by
  rw [move, h.stuck, Option.getD_none]

/-- A change whose job cannot go on is held up. -/
theorem blocked_of_stuck {stage : ChangeStage} (hstuck : c.stepJob? i = none)
    (hwork : c.workAt i = some (.change change stage)) :
    c.stepChange i change stage = .blocked := by
  obtain ⟨job, hget, hbegun⟩ := Option.bind_eq_some_iff.mp hwork
  have hwork? := (Option.filter_eq_some_iff.mp hbegun).1
  rw [stepJob?, hget] at hstuck
  cases job with
  | change change' stage' =>
      cases hwork?
      dsimp only at hstuck
      split at hstuck
      · assumption
      · cases hstuck
      · cases hstuck
  | provideAll todo made stage' =>
      cases todo with
      | nil => cases hwork?
      | cons head rest =>
          cases hwork?
          dsimp only [stepProvideAll?] at hstuck
          split at hstuck <;> first | assumption | cases hstuck
  | withdraw reason todo stage' =>
      cases todo with
      | nil => cases hwork?
      | cons head rest =>
          cases hwork?
          dsimp only [stepWithdraw?] at hstuck
          split at hstuck <;> first | assumption | cases hstuck
  | call | answer | handle | sweep | receive => cases hwork?

/-- A call whose job cannot go on is held up. -/
theorem Resting.blocked_call (h : c.Resting) (hcall : c.callAt i = some (call, stage)) :
    c.stepCall i call stage = .blocked := by
  have hstuck := h.stuck i
  rcases workAt_of_callAt hcall with hwork | ⟨change, hwork, rfl⟩
  · obtain ⟨expected, hget⟩ := get?_of_call hwork
    rw [stepJob?, hget] at hstuck
    dsimp only at hstuck
    split at hstuck <;> first | assumption | cases hstuck
  · have hblocked := blocked_of_stuck hstuck hwork
    rcases stepChange_blocked hblocked with ⟨hgate, -⟩ | ⟨stage', heq, hcall'⟩
    · cases hgate
    · cases heq
      exact hcall'

theorem Resting.blocked_calling (h : c.Resting)
    (hwork : c.workAt i = some (.change change (.calling stage))) :
    c.stepCall i (c.changeCall change) stage = .blocked := by
  rcases stepChange_blocked (blocked_of_stuck (h.stuck i) hwork) with
    ⟨hgate, -⟩ | ⟨stage', heq, hcall⟩
  · cases hgate
  · cases heq
    exact hcall

/-- Time passes only while every job is at rest. -/
def Punctual (c : Client) (moves : List Move) : Prop :=
  c.Throughout (fun client m => (client.move m).now = client.now ∨ client.Resting) moves

instance Punctual.decidable (c : Client) (moves : List Move) : Decidable (c.Punctual moves) :=
  inferInstanceAs (Decidable (c.Throughout _ moves))

/-- The call of a job has had to wait for room in a run. -/
def Crowded (c : Client) (moves : List Move) (i : JobId) : Prop :=
  ∃ mid call id slot, mid <+: moves ∧ (c.run mid).callAt i = some (call, .crowded id slot)

/-- With its next step the call of job `i` hands its frame over, and its deadline counts from then.
-/
structure SetsDeadline (c : Client) (i : JobId) (call : Call) (id : UInt64) (slot : Nat) :
    Prop where
  unsent : ∃ stage, c.callAt i = some (call, stage) ∧ stage.unsent? = some id
  sent : (c.move (.advance i)).sent = c.sent ++ [requestFrame call id]
  waiting : (c.move (.advance i)).callAt i =
    some (call, .waiting id slot (c.now + c.timeoutOf call))

/-- In a run, calls keep their deadlines, and changes let go of their gates, unless they have had to
wait for room.  When every job is at rest, a call under way waits for room on a channel or is before
the deadline that counts from when it handed its frame over; one that has not had to wait for room
is before the one that counts from when it entered the table. -/
structure KeepsDeadlines (c : Client) (moves : List Move) : Prop where
  handed : (c.run moves).Resting → ∀ i call stage, (c.run moves).callAt i = some (call, stage) →
    (∃ id slot channel, stage = .crowded id slot ∧ (c.run moves).link = .channel channel ∧
      (channel.retry i (requestFrame call id)).2 = .waits) ∨
    ∃ before since id slot, moves = before ++ .advance i :: since ∧
      (c.run before).SetsDeadline i call id slot ∧
      (c.run moves).now < (c.run before).now + (c.run before).timeoutOf call
  entered : c.Punctual moves → (c.run moves).Resting → ∀ before since i call id slot,
    moves = before ++ .advance i :: since → (c.run before).Enters (.advance i) i call id slot →
    (c.run moves).entryAt i = some (id, slot) →
    (c.run moves).now < (c.run before).now + (c.run before).timeoutOf call ∨
      ((c.run before).move (.advance i)).Crowded since i
  gates : c.Punctual moves → (c.run moves).Resting → ∀ before since i change,
    moves = before ++ .advance i :: since → (c.run before).passes? (.advance i) = some change →
    (∀ mid, mid <+: since → (((c.run before).move (.advance i)).run mid).visits
      change.ofListeners i = some (change.event, .inside)) →
    (c.run moves).now < (c.run before).now + c.settings.subscribeTimeout ∨
      ((c.run before).move (.advance i)).Crowded since i

/-- The call has come without delay as far as it is, when it has begun at time `since`. -/
def OnTime (c : Client) (since : Nat) (call : Call) : CallStage → Prop
  | .fresh | .entered _ _ => c.now = since
  | .crowded _ _ => False
  | .waiting _ _ deadline => deadline = since + c.timeoutOf call
  | .overdue _ _ | .over _ _ _ => True

/-- A call that is on time at rest is before its deadline. -/
theorem OnTime.now_lt (h : c.OnTime since call stage)
    (hblocked : c.stepCall i call stage = .blocked) : c.now < since + c.timeoutOf call := by
  rcases stepCall_blocked hblocked with ⟨id, slot, channel, rfl, -⟩ |
    ⟨id, slot, deadline, rfl, -, hdeadline⟩
  · exact h.elim
  · rwa [show deadline = since + c.timeoutOf call from h] at hdeadline

/-- A call stays on time as long as it does not have to wait for room, if no time passes while it
could go on. -/
theorem OnTime.move (h : c.OnTime since call stage) (hnumbered : c.Numbered)
    (hnow : (c.move m).now = c.now ∨ c.stepCall i call stage = .blocked)
    (hstage : stage' = stage ∨
      (c.move m).now = c.now ∧ ∃ table sent, CallStep c call stage table sent stage') :
    (c.move m).OnTime since call stage' ∨ ∃ id slot, stage' = .crowded id slot := by
  have htimeout := timeoutOf_move hnumbered m call
  rcases hstage with rfl | ⟨hstill, table, sent, hstep⟩
  · left
    cases stage' with
    | fresh | entered id slot =>
        rcases hnow with hnow | hblocked
        · exact hnow.trans h
        · rcases stepCall_blocked hblocked with
            ⟨id', slot', channel, hstage, -⟩ | ⟨id', slot', deadline, hstage, -⟩ <;> cases hstage
    | crowded id slot => exact h.elim
    | waiting id slot deadline =>
        rw [OnTime, htimeout]
        exact h
    | overdue | «over» => trivial
  · cases hstep with
    | enter => exact .inl (hstill.trans h)
    | @hand _ id slot hunsent hentry =>
        left
        rw [OnTime, htimeout]
        cases stage with
        | entered => rw [show c.now = since from h]
        | crowded => exact h.elim
        | fresh | waiting | overdue | «over» => cases hunsent
    | queue => exact .inr ⟨_, _, rfl⟩
    | refuse | take | miss | expire | cancel => exact .inl trivial

/-- Between two states in which a job is in a call under the same id, the call makes a step or
stays where it is. -/
theorem callStep_of_move (hnumbered : c.Numbered) (m : Move) {call' : Call}
    (hbefore : c.callAt i = some (call, stage))
    (hafter : (c.move m).callAt i = some (call', stage')) :
    call' = call ∧ (stage' = stage ∨ m = .advance i ∧ ∃ table sent,
      CallStep c call stage table sent stage' ∧ (c.move m).sent = sent) := by
  obtain ⟨hcall, ⟨hstage, -⟩ | ⟨hstage, -⟩ | ⟨hm, table, sent, hstep, -, hsent⟩⟩ :=
    turn_of_move hnumbered hbefore hafter
  · exact ⟨hcall, .inl hstage⟩
  · exact ⟨hcall, .inl hstage⟩
  · exact ⟨hcall, .inr ⟨hm, table, sent, hstep, hsent⟩⟩

/-- A job that makes its step while time stands still or every job is at rest takes no time. -/
theorem now_of_advance (h : (c.move (.advance i)).now = c.now ∨ c.Resting) :
    (c.move (.advance i)).now = c.now := by
  rcases h with hnow | hresting
  · exact hnow
  · rw [hresting.move_advance]
    rfl

theorem Crowded.concat (h : c.Crowded moves i) (m : Move) : c.Crowded (moves ++ [m]) i := by
  obtain ⟨mid, call, id, slot, hmid, hcall⟩ := h
  exact ⟨mid, call, id, slot, hmid.trans (List.prefix_append moves [m]), hcall⟩

theorem Crowded.of_last (hcall : (c.run moves).callAt i = some (call, .crowded id slot)) :
    c.Crowded moves i :=
  ⟨moves, call, id, slot, List.prefix_refl moves, hcall⟩

/-- A call that waits for its reply has handed its frame over at some move of the run, and its
deadline counts from then. -/
theorem exists_setsDeadline (hnumbered : c.Numbered) (hnone : ∀ i, c.callAt i = none)
    (hcall : (c.run moves).callAt i = some (call, .waiting id slot deadline)) :
    ∃ before since, moves = before ++ .advance i :: since ∧
      (c.run before).SetsDeadline i call id slot ∧
      deadline = (c.run before).now + (c.run before).timeoutOf call := by
  induction moves using List.reverseRecOn with
  | nil =>
      rw [run_nil, hnone] at hcall
      cases hcall
  | append_singleton moves m ih =>
      rw [run_concat] at hcall
      rcases callAt_of_move (hnumbered.run moves) hcall rfl with
        ⟨stage, hbefore, -⟩ | ⟨-, hstage, -⟩
      · rcases (callStep_of_move (hnumbered.run moves) m hbefore hcall).2 with
          rfl | ⟨rfl, table, sent, hstep, hsent⟩
        · obtain ⟨before, since, rfl, hsets, hdeadline⟩ := ih hbefore
          exact ⟨before, since ++ [m], by simp, hsets, hdeadline⟩
        · cases hstep with
          | hand hunsent hentry =>
              exact ⟨moves, [], rfl, ⟨⟨stage, hbefore, hunsent⟩, hsent, hcall⟩, rfl⟩
      · cases hstage

/-- A call that has entered the table in a punctual run is on time, or has had to wait for room. -/
theorem Enters.onTime (h : c.Enters (.advance i) i call id slot) (hreserved : c.Reserved)
    {after : List Move} (hpunctual : c.Punctual (.advance i :: after)) {call' : Call}
    (hcall : ((c.move (.advance i)).run after).callAt i = some (call', stage))
    (hentry : stage.entryOf? = some (id, slot)) :
    call' = call ∧ (((c.move (.advance i)).run after).OnTime c.now call stage ∨
      (c.move (.advance i)).Crowded after i) := by
  have hnext := hreserved.move (.advance i)
  have hmade := hnext.made i id slot (entryAt_of_callAt h.after)
  induction after using List.reverseRecOn generalizing stage with
  | nil =>
      rw [run_nil, h.after] at hcall
      cases hcall
      exact ⟨rfl, .inl (now_of_advance hpunctual.1)⟩
  | append_singleton after m ih =>
      have hstate := (hnext.run after).numbered
      obtain ⟨hfirst, hlast, -⟩ := Throughout.append_iff.mp (List.cons_append ▸ hpunctual)
      rw [run_cons] at hlast
      rw [run_concat] at hcall ⊢
      rcases callAt_of_move hstate hcall hentry with ⟨stage₁, hbefore, hentry₁⟩ | ⟨-, -, hslot⟩
      · obtain ⟨rfl, htime | hcrowded⟩ := ih hfirst hbefore hentry₁
        · refine ⟨rfl, ?_⟩
          have hstep := (callStep_of_move hstate m hbefore hcall).2
          rcases htime.move hstate (hlast.imp_right fun h => h.blocked_call hbefore)
            (hstep.imp_right fun ⟨hm, table, sent, hstep, _⟩ =>
              ⟨by subst hm; exact now_of_advance hlast, table, sent, hstep⟩) with
            htime | ⟨id', slot', rfl⟩
          · exact .inl htime
          · exact .inr (.of_last (by rw [run_concat, hcall]))
        · exact ⟨rfl, .inr (hcrowded.concat m)⟩
      · have hle := slots_length_le_run hnext.numbered after
        omega

theorem settings_run (hnumbered : c.Numbered) (moves : List Move) :
    (c.run moves).settings = c.settings := by
  induction moves generalizing c with
  | nil => rfl
  | cons m rest ih => rw [run_cons, ih (hnumbered.move m), settings_move hnumbered m]

theorem changeCall_congr (hsettings : c'.settings = c.settings) (change : Change) :
    c'.changeCall change = c.changeCall change := by
  rw [changeCall, hsettings, changeCall]

theorem callAt_of_calling_stage (hwork : c.workAt i = some (.change change (.calling stage)))
    (hstage : stage ≠ .fresh) : c.callAt i = some (c.changeCall change, stage) := by
  rw [callAt, hwork, Option.bind_some, callOf?_calling c hstage]

/-- Between two states in which a change is in its call, the call makes a step or stays where it
is. -/
theorem callStep_of_calling (hnumbered : c.Numbered) (m : Move)
    (hbefore : c.workAt i = some (.change change (.calling stage)))
    (hafter : (c.move m).workAt i = some (.change change (.calling stage'))) :
    stage' = stage ∨ m = .advance i ∧ ∃ table sent,
      CallStep c (c.changeCall change) stage table sent stage' := by
  have hsame : (c.move m).workAt i = c.workAt i → stage' = stage ∨ m = .advance i ∧
      ∃ table sent, CallStep c (c.changeCall change) stage table sent stage' := by
    intro heq
    rw [heq, hbefore] at hafter
    cases hafter
    exact .inl rfl
  cases moveCase hnumbered m with
  | quiet _ h | reply _ h | sweep _ _ h => exact hsame (h.work hnumbered i)
  | @turn j job work work' c₁ hm hjob hwork hturn h =>
      have hown := h.work i
      by_cases hj : i = j
      · subst hj
        have hbegun := workAt_of_get? hjob
        rw [Job.begun?, hwork, hbefore] at hbegun
        obtain rfl := (Option.filter_eq_some_iff.mp hbegun.symm).1 |> Option.some.inj
        rw [if_pos rfl, hafter] at hown
        subst hown
        cases hturn with
        | change hmoved =>
            generalize hstage : ChangeStage.calling stage' = reached at hmoved
            have hstep := stepChange_moved hmoved
            cases hstep with
            | call hcall =>
                cases hstage
                obtain ⟨table, sent, hnext, -⟩ := stepCall_moved hcall
                exact .inr ⟨hm, table, sent, hnext⟩
            | settle | fail => cases hstage
      · rw [if_neg hj] at hown
        exact hsame hown
  | @drop j job work hm hjob hwork h =>
      have hown := h.work i
      by_cases hj : i = j
      · rw [if_pos hj, hafter] at hown
        cases hown
      · rw [if_neg hj] at hown
        exact hsame hown

/-- A change in its call, in a punctual run in which it has been inside of its gate since it went
through, is on time or has had to wait for room. -/
theorem onTime_of_passes (hnumbered : c.Numbered) {after : List Move}
    (hpunctual : c.Punctual (.advance i :: after))
    (hpasses : c.passes? (.advance i) = some change)
    (hinside : ∀ mid, mid <+: after → ((c.move (.advance i)).run mid).visits
      change.ofListeners i = some (change.event, .inside)) {change' : Change}
    (hwork : ((c.move (.advance i)).run after).workAt i =
      some (.change change' (.calling stage))) :
    change' = change ∧ (((c.move (.advance i)).run after).OnTime c.now (c.changeCall change) stage ∨
      (c.move (.advance i)).Crowded after i) := by
  have hnext := hnumbered.move (.advance i)
  induction after using List.reverseRecOn generalizing stage with
  | nil =>
      obtain ⟨rfl, rfl, -⟩ := calling_of_passes hpasses hwork
      exact ⟨rfl, .inl (now_of_advance hpunctual.1)⟩
  | append_singleton after m ih =>
      have hstate := hnext.run after
      obtain ⟨hfirst, hlast, -⟩ := Throughout.append_iff.mp (List.cons_append ▸ hpunctual)
      rw [run_cons] at hlast
      have hhere := hinside after (List.prefix_append _ _)
      rw [run_concat] at hwork ⊢
      rcases calling_of_move hstate m hwork with ⟨-, stage₁, hbefore⟩ | ⟨-, hgate, -⟩
      · obtain ⟨rfl, htime | hcrowded⟩ :=
          ih hfirst (fun mid hmid => hinside mid (hmid.trans (List.prefix_append _ _))) hbefore
        · refine ⟨rfl, ?_⟩
          have hcalls : ((c.move (.advance i)).run after).changeCall change' =
              c.changeCall change' :=
            changeCall_congr ((settings_run hnext after).trans (settings_move hnumbered _)) change'
          have hstep := callStep_of_calling hstate m hbefore hwork
          rw [hcalls] at hstep
          rcases htime.move hstate
            (hlast.imp_right fun h => hcalls ▸ h.blocked_calling hbefore)
            (hstep.imp_right fun ⟨hm, hstep⟩ => ⟨by subst hm; exact now_of_advance hlast, hstep⟩)
            with htime | ⟨id', slot', rfl⟩
          · exact .inl htime
          · have hcall := callAt_of_calling_stage hwork CallStage.noConfusion
            exact .inr (.of_last (by rw [run_concat, hcall]))
        · exact ⟨rfl, .inr (hcrowded.concat m)⟩
      · -- At its gate it would not be inside.
        obtain ⟨change₁, stage₁, hwork₁, -, -, hphase⟩ := work_of_visits hhere
        rw [hgate] at hwork₁
        cases hwork₁
        cases hphase

/-- In every run, calls keep the deadlines that count from when they hand their frames over.  If
time passes only at rest, calls and changes that have not had to wait for room keep those that count
from when they entered the table or went through the gate. -/
theorem keeps_deadlines (settings : Settings) (link : Link) (moves : List Move) :
    (ofSettings settings link).KeepsDeadlines moves := by
  have hreserved := Reserved.ofSettings settings link
  have hnumbered := hreserved.numbered
  refine ⟨?_, ?_, ?_⟩
  · intro hresting i call stage hcall
    rcases stepCall_blocked (hresting.blocked_call hcall) with
      ⟨id, slot, channel, rfl, hlink, hfull⟩ | ⟨id, slot, deadline, rfl, -, hdeadline⟩
    · exact .inl ⟨id, slot, channel, rfl, hlink, hfull⟩
    · obtain ⟨before, since, heq, hsets, rfl⟩ :=
        exists_setsDeadline hnumbered (fun _ => rfl) hcall
      exact .inr ⟨before, since, id, slot, heq, hsets, hdeadline⟩
  · rintro hpunctual hresting before since i call id slot rfl henters hentry
    rw [run_append, run_cons] at hresting hentry ⊢
    obtain ⟨⟨call', stage⟩, hcall, hentry⟩ := Option.bind_eq_some_iff.mp hentry
    have hlast := (Throughout.append_iff.mp hpunctual).2
    obtain ⟨rfl, htime | hcrowded⟩ :=
      henters.onTime (hreserved.run before) hlast hcall hentry
    · left
      have hnow := htime.now_lt (hresting.blocked_call hcall)
      rwa [timeoutOf_run ((hnumbered.run before).move _), timeoutOf_move (hnumbered.run before)]
        at hnow
    · exact .inr hcrowded
  · rintro hpunctual hresting before since i change rfl hpasses hinside
    rw [run_append, run_cons] at hresting ⊢
    have hlast := (Throughout.append_iff.mp hpunctual).2
    obtain ⟨change', stage, hwork, -, -, hphase⟩ :=
      work_of_visits (hinside since (List.prefix_refl since))
    have hblocked := blocked_of_stuck (hresting.stuck i) hwork
    rcases stepChange_blocked hblocked with ⟨rfl, -⟩ | ⟨stage', rfl, hcall⟩
    · cases hphase
    · obtain ⟨rfl, htime | hcrowded⟩ :=
        onTime_of_passes (hnumbered.run before) hlast hpasses hinside hwork
      · left
        have hsame : ((ofSettings settings link).run before).settings =
            (ofSettings settings link).settings := settings_run hnumbered before
        rw [changeCall_congr ((settings_run ((hnumbered.run before).move _) since).trans
          (settings_move (hnumbered.run before) _))] at hcall
        have hnow := htime.now_lt hcall
        rw [← hsame]
        exact hnow
      · exact .inr hcrowded

/-- Every job is at rest, and the call of job `i` is still under way after its timeout, counted from
when it entered the table. -/
def Outlives (c : Client) (moves : List Move) (i : JobId) : Prop :=
  ∃ before since call id slot, moves = before ++ .advance i :: since ∧
    (c.run before).Enters (.advance i) i call id slot ∧ (c.run moves).Resting ∧
    (c.run moves).entryAt i = some (id, slot) ∧
    (c.run before).now + (c.run before).timeoutOf call < (c.run moves).now

/-- On a channel with room for one frame, the second call waits for room beyond its timeout, also
when a sweeper has ended it meanwhile, and a subscription does so with its gate held. -/
theorem outlives_deadline :
    let client := ofSettings {} (.channel { capacity := 1 })
    let first : List Move :=
      [.begin (.call ⟨"device.name", some (.object []), none⟩ .nothing), .advance 0, .advance 0]
    let second : Move := .begin (.call ⟨"device.model", some (.object []), none⟩ .nothing)
    let subscribe : Move :=
      .begin (.change (.subscribe "device.onNameChanged" ⟨"L", .anything, .nothing⟩))
    let late : List Move := [.elapse 1001, .advance 0, .advance 0, .advance 0]
    let swept := late ++ [.elapse 3999, .advance 2, .advance 2, .advance 2]
    let plain := first ++ [second, .advance 1, .advance 1] ++ late
    let sweeping := first ++ [second, .advance 1, .advance 1] ++
      [.startSweeper, .advance 2, .advance 2] ++ swept
    let changing := first ++ subscribe :: [1, 1, 1, 1, 1].map Move.advance ++ late
    (client.Punctual plain ∧ client.Outlives plain 1) ∧
      (client.Punctual sweeping ∧ client.Outlives sweeping 1 ∧
        (client.run sweeping).table.pending = []) ∧
      (client.Punctual changing ∧ client.Outlives changing 1 ∧
        (client.run changing).eventGates.owns 1 = true) := by
  intro client first second subscribe late swept plain sweeping changing
  have hsecond : ∀ since,
      (client.run (first ++ [second, .advance 1, .advance 1] ++ since)).Resting →
      (client.run (first ++ [second, .advance 1, .advance 1] ++ since)).entryAt 1 = some (2, 1) →
      1000 < (client.run (first ++ [second, .advance 1, .advance 1] ++ since)).now →
      client.Outlives (first ++ [second, .advance 1, .advance 1] ++ since) 1 := by
    intro since hresting hentry hnow
    exact ⟨first ++ [second], .advance 1 :: since, ⟨"device.model", some (.object []), none⟩, 2, 1,
      by simp, ⟨rfl, by decide, by decide, by decide⟩, hresting, hentry, hnow⟩
  refine ⟨⟨by decide +kernel, ?_⟩, ⟨by decide +kernel, ?_, by decide +kernel⟩,
    by decide +kernel, ?_, by decide +kernel⟩
  · exact hsecond late (by decide +kernel) (by decide +kernel) (by decide +kernel)
  · exact hsecond ([.startSweeper, .advance 2, .advance 2] ++ swept) (by decide +kernel)
      (by decide +kernel) (by decide +kernel)
  · exact ⟨first ++ subscribe :: [1, 1, 1].map Move.advance, .advance 1 :: late,
      client.changeCall (.subscribe "device.onNameChanged" ⟨"L", .anything, .nothing⟩), 2, 1,
      by decide, ⟨rfl, by decide, by decide, by decide⟩, by decide +kernel, by decide +kernel,
      by decide +kernel⟩

end Client

end GatewayClient
