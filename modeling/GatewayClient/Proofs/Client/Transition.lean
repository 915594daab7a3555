/-
One request for each transition.  The platform is asked about an event only when the event's first
listener comes or its last one has gone, by one job at a time, and only the changes of the same
event wait for that job.
-/
import GatewayClient.Proofs.Client.Lifetime
import GatewayClient.Proofs.Client.Passing
import GatewayClient.Proofs.Client.Requests

namespace GatewayClient

namespace Client

variable {c : Client} {i j : JobId} {change change' : Change} {moves : List Move}

/-- The job `i` is in its call to the platform at the end of the moves, since it went through its
gate and found that the platform has to know of its change; there have been no listeners since. -/
def Opened (c : Client) (moves : List Move) (i : JobId) (change : Change) : Prop :=
  ∃ before since, moves = before ++ .advance i :: since ∧
    (c.run before).workAt i = some (.change change .atGate) ∧ (c.run before).Switches change ∧
    ∀ mid, mid <+: since →
      (∃ stage, (c.run (before ++ .advance i :: mid)).workAt i =
        some (.change change (.calling stage))) ∧
      (c.run (before ++ .advance i :: mid)).isSubscribed change.event = false

/-- The job `i` hands over no request. -/
def HandsNothing (c : Client) (moves : List Move) (i : JobId) : Prop :=
  ∀ before m after call id, moves = before ++ m :: after →
    ¬(c.run before).HandsOver m i call id

/-- A call that has entered the table is one of an application, or that of a change. -/
theorem workAt_of_callAt {call : Call} {stage : CallStage}
    (hcall : c.callAt i = some (call, stage)) :
    c.workAt i = some (.call call stage) ∨
      ∃ change, c.workAt i = some (.change change (.calling stage)) ∧
        call = c.changeCall change := by
  obtain ⟨work, hwork, hcallOf⟩ := Option.bind_eq_some_iff.mp hcall
  cases work with
  | call call' stage' =>
      have heq : call' = call ∧ stage' = stage := by
        cases stage' <;> cases hcallOf <;> exact ⟨rfl, rfl⟩
      obtain ⟨rfl, rfl⟩ := heq
      exact Or.inl hwork
  | change change stage' =>
      cases stage' with
      | calling stage' =>
          have heq : c.changeCall change = call ∧ stage' = stage := by
            cases stage' <;> cases hcallOf <;> exact ⟨rfl, rfl⟩
          obtain ⟨rfl, rfl⟩ := heq
          exact Or.inr ⟨change, hwork, rfl⟩
      | fresh | referring | atGate | releasing | pruning => cases hcallOf

/-- Only a job for a change of who listens does the work of one. -/
theorem get?_of_workAt {stage : ChangeStage} (hlisteners : change.ofListeners = true)
    (hwork : c.workAt i = some (.change change stage)) :
    c.jobs.get? i = some (.change change stage) := by
  obtain ⟨job, hget, hbegun⟩ := Option.bind_eq_some_iff.mp hwork
  have hwork? := (Option.filter_eq_some_iff.mp hbegun).1
  rw [hget]
  cases job with
  | change change' stage' =>
      cases hwork?
      rfl
  | provideAll todo made stage' =>
      cases todo <;> cases hwork?
      cases hlisteners
  | withdraw reason todo stage' =>
      cases todo <;> cases hwork?
      cases hlisteners
  | call | answer | handle | sweep | receive => cases hwork?

/-- A change in its call about listeners has begun it when the platform had to know. -/
theorem Opened.of_calling (hnumbered : c.Numbered) (hnone : ∀ i, c.workAt i = none)
    (horderly : c.GatesOrderly) (hsilent : c.Silent) (hlisteners : change.ofListeners = true)
    {stage : CallStage}
    (hwork : (c.run moves).workAt i = some (.change change (.calling stage))) :
    c.Opened moves i change := by
  obtain ⟨before, since, rfl, hpasses, hcalling, hsince⟩ := exists_passing hnumbered hnone hwork
  obtain ⟨j, hm, hgate, -⟩ := passes?_eq_some hpasses
  cases hm
  have hswitches := (switches_of_enterChange hlisteners hcalling).1
  refine ⟨before, since, rfl, hgate, hswitches, fun mid hmid => ?_⟩
  obtain ⟨stage', hmidWork⟩ := hsince mid hmid
  exact ⟨⟨stage', hmidWork⟩,
    hsilent.run hnumbered horderly _ i change stage' hmidWork hlisteners⟩

theorem calling_of_callAt {stage : ChangeStage} {call : Call} {stage' : CallStage}
    (hget : c.jobs.get? i = some (.change change stage))
    (hcall : c.callAt i = some (call, stage')) : stage = .calling stage' := by
  have hbegun := workAt_of_get? hget
  rw [begun?_change] at hbegun
  rcases workAt_of_callAt hcall with hwork | ⟨change', hwork, -⟩
  · rw [hbegun] at hwork
    split at hwork <;> cases hwork
  · rw [hbegun] at hwork
    split at hwork <;> cases hwork
    rfl

theorem exists_job_of_callAt {call : Call} {stage : CallStage}
    (hcall : c.callAt i = some (call, stage)) : ∃ job, c.jobs.get? i = some job := by
  obtain ⟨work, hwork, -⟩ := Option.bind_eq_some_iff.mp hcall
  obtain ⟨job, hget, -⟩ := Option.bind_eq_some_iff.mp hwork
  exact ⟨job, hget⟩

/-- A change that will be in its call has not ended it before. -/
theorem rank_le_of_callAt_run (hnumbered : c.Numbered) (moves : List Move) {stage : ChangeStage}
    (hget : c.jobs.get? i = some (.change change stage)) {call : Call} {stage' : CallStage}
    (hcall : (c.run moves).callAt i = some (call, stage')) : stage.rank ≤ 3 := by
  obtain ⟨job, hget'⟩ := exists_job_of_callAt hcall
  obtain ⟨later, rfl⟩ := (inherits_run hnumbered moves).eq_change hnumbered hget hget'
  have hrank := rank_le_run hnumbered moves hget hget'
  rwa [calling_of_callAt hget' hcall] at hrank

/-- A job that will be for a change is for it already. -/
theorem eq_change_of_later (hnumbered : c.Numbered) {job : Job} (hget : c.jobs.get? i = some job)
    (hget' : (c.run moves).jobs.get? i = some (.change change stage)) :
    ∃ stage', job = .change change stage' :=
  eq_change_of_change? ((inherits_run hnumbered moves).change?_eq hnumbered hget hget').symm

/-- A change that has been in its call will not be at its gate. -/
theorem le_rank_of_callAt (hnumbered : c.Numbered) (moves : List Move) {call : Call}
    {stage' : CallStage} (hcall : c.callAt i = some (call, stage')) {stage : ChangeStage}
    (hget' : (c.run moves).jobs.get? i = some (.change change stage)) : 3 ≤ stage.rank := by
  obtain ⟨job, hget⟩ := exists_job_of_callAt hcall
  obtain ⟨earlier, rfl⟩ := eq_change_of_later hnumbered hget hget'
  have hrank := rank_le_run hnumbered moves hget hget'
  rwa [calling_of_callAt hget hcall] at hrank

/-- A job at its gate goes in when it owns the gate. -/
theorem get?_move_of_owns (hget : c.jobs.get? i = some (.change change .atGate))
    (howns : (c.gatesOf change).owns i = true) :
    (c.move (.advance i)).jobs.get? i = some (.change change (c.enterChange change).2) := by
  have hmove : c.move (.advance i) =
      (c.enterChange change).1.setJob i (.change change (c.enterChange change).2) := by
    rw [move, stepJob?, hget]
    simp only [stepChange, howns, ↓reduceIte, Option.getD_some]
  rw [hmove]
  exact Dictionary.get?_put_self _ _ _

/-- A change that is done when it goes through its gate never hands over a request. -/
theorem HandsNothing.of_done (hnumbered : c.Numbered) {before : List Move} (after : List Move)
    (hget : (c.run before).jobs.get? i = some (.change change .atGate))
    (howns : ((c.run before).gatesOf change).owns i = true) {changed : Changed}
    (hdone : ((c.run before).enterChange change).2 = .releasing (.ok changed)) :
    c.HandsNothing (before ++ .advance i :: after) i := by
  intro before' m after' call id heq hhands
  obtain ⟨-, ⟨stage, hcall, -⟩, -⟩ := hhands
  have hearlier : ∀ mid, before ≠ before' ++ mid := by
    rintro mid rfl
    rw [run_append] at hget
    have hrank := le_rank_of_callAt (hnumbered.run before') mid hcall hget
    exact absurd hrank (by decide)
  rcases List.append_eq_append_iff.mp heq with ⟨mid, rfl, hmid⟩ | ⟨mid, hmid, -⟩
  · cases mid with
    | nil => exact hearlier [] (by simp)
    | cons m' mid =>
        obtain ⟨rfl, -⟩ := List.cons_eq_cons.mp hmid
        have hnext := get?_move_of_owns hget howns
        rw [hdone] at hnext
        rw [run_append, run_cons] at hcall
        have hrank := rank_le_of_callAt_run ((hnumbered.run before).move _) mid hnext hcall
        exact absurd hrank (by simp [ChangeStage.rank])
  · exact hearlier mid hmid

/-- A change that goes through its gate with nothing to tell never hands over a request. -/
theorem HandsNothing.of_settled (hnumbered : c.Numbered) (hlisteners : change.ofListeners = true)
    {before : List Move} (after : List Move)
    (hgate : (c.run before).workAt i = some (.change change .atGate))
    (howns : ((c.run before).gatesOf change).owns i = true)
    (hnothing : ¬(c.run before).Switches change) :
    c.HandsNothing (before ++ .advance i :: after) i := by
  rcases (c.run before).enterChange_stage change with hcalling | ⟨changed, hdone⟩
  · exact absurd (switches_of_enterChange hlisteners hcalling).1 hnothing
  · exact .of_done hnumbered after (get?_of_workAt hlisteners hgate) howns hdone

/-- Two calls about the listeners of one event are by one job. -/
theorem GatesOrderly.eq_of_calling (h : c.GatesOrderly) {stage stage' : CallStage}
    (hi : c.workAt i = some (.change change (.calling stage)))
    (hj : c.workAt j = some (.change change' (.calling stage')))
    (hlisteners : change.ofListeners = true) (hlisteners' : change'.ofListeners = true)
    (hevent : change.event = change'.event) : i = j := by
  exact h.eq_of_calling_same hi hj (hlisteners.trans hlisteners'.symm) hevent

/-- What a job for a change of who listens can be held up by: another for a change of the same
event, that owns the gate; or, in its own call, a full channel or a reply that is not there. -/
inductive Awaits (c : Client) (i : JobId) (change : Change) : ChangeStage → Prop where
  | turn {j : JobId} {change' : Change} {stage' : ChangeStage} (hne : j ≠ i)
    (hother : c.workAt j = some (.change change' stage'))
    (hlisteners : change'.ofListeners = true) (hevent : change'.event = change.event)
    (howns : c.eventGates.owns j = true) : Awaits c i change .atGate
  | room {id : UInt64} {slot : Nat} {channel : Channel} (hlink : c.link = .channel channel)
    (hfull : (channel.retry i (requestFrame (c.changeCall change) id)).2 = .waits) :
    Awaits c i change (.calling (.crowded id slot))
  | reply {id : UInt64} {slot deadline : Nat} (hempty : c.table.content slot = .empty)
    (hdeadline : c.now < deadline) : Awaits c i change (.calling (.waiting id slot deadline))

theorem Awaits.of_stuck (horderly : c.GatesOrderly) (hlisteners : change.ofListeners = true)
    {stage : ChangeStage} (hget : c.jobs.get? i = some (.change change stage))
    (hstuck : c.stepJob? i = none) : c.Awaits i change stage := by
  have hblocked : c.stepChange i change stage = .blocked := by
    rw [stepJob?, hget] at hstuck
    dsimp only at hstuck
    split at hstuck
    · assumption
    · cases hstuck
    · cases hstuck
  rcases stepChange_blocked hblocked with ⟨rfl, howns⟩ | ⟨stage', rfl, hcall⟩
  · have hvisit : c.visits true i = some (change.event, .waiting) :=
      hlisteners ▸ visits_of_workAt (workAt_of_get? hget)
    rw [gatesOf_eq, hlisteners] at howns
    obtain ⟨j, phase, hne, hvisit', -, howns'⟩ := (horderly true).exists_owner hvisit howns
    obtain ⟨change', stage', hother, hlisteners', hevent, -⟩ := work_of_visits hvisit'
    exact .turn hne hother hlisteners' hevent howns'
  · rcases stepCall_blocked hcall with
      ⟨id, slot, channel, rfl, hlink, hfull⟩ | ⟨id, slot, deadline, rfl, hempty, hdeadline⟩
    · exact .room hlink hfull
    · exact .reply hempty hdeadline

/-- In a run, the platform is asked about an event once for each transition of its listeners.
Whoever hands over a request is in a call of an application or in that of a change, and a change of
who listens has begun its call when the platform had to know.  One job at a time is in a call about
the listeners of an event, and it waits for no change of another. -/
structure OncePerTransition (c : Client) (moves : List Move) : Prop where
  handed : ∀ before m after, moves = before ++ m :: after →
    ((c.run before).move m).requestIds = (c.run before).requestIds ∨
      ∃ i call id, (c.run before).HandsOver m i call id ∧
        ((∃ stage, (c.run before).workAt i = some (.call call stage)) ∨
          ∃ change stage, (c.run before).workAt i = some (.change change (.calling stage)) ∧
            call = (c.run before).changeCall change ∧
            (change.ofListeners = true → c.Opened before i change))
  opened : ∀ i change stage, (c.run moves).workAt i = some (.change change (.calling stage)) →
    change.ofListeners = true → c.Opened moves i change
  settled : ∀ before after i change, moves = before ++ .advance i :: after →
    (c.run before).workAt i = some (.change change .atGate) →
    ((c.run before).gatesOf change).owns i = true → change.ofListeners = true →
    ¬(c.run before).Switches change → c.HandsNothing moves i
  alone : ∀ i j change change' stage stage',
    (c.run moves).workAt i = some (.change change (.calling stage)) →
    (c.run moves).workAt j = some (.change change' (.calling stage')) →
    change.ofListeners = true → change'.ofListeners = true → change.event = change'.event → i = j
  undelayed : ∀ i change stage, (c.run moves).jobs.get? i = some (.change change stage) →
    change.ofListeners = true → (c.run moves).stepJob? i = none →
    (c.run moves).Awaits i change stage

/-- In every run of a client, whatever its jobs do and wherever they are given up, the platform is
asked about an event once for each transition of its listeners. -/
theorem once_per_transition (settings : Settings) (link : Link) (moves : List Move) :
    (ofSettings settings link).OncePerTransition moves := by
  have hnumbered := numbered_ofSettings settings link
  have horderly := GatesOrderly.ofSettings settings link
  have hopened : ∀ moves i change stage,
      ((ofSettings settings link).run moves).workAt i = some (.change change (.calling stage)) →
      change.ofListeners = true → (ofSettings settings link).Opened moves i change :=
    fun moves i change stage hwork hlisteners =>
      .of_calling hnumbered (fun _ => rfl) horderly (.ofSettings settings link) hlisteners hwork
  refine ⟨?_, hopened moves, ?_, ?_, ?_⟩
  · intro before m after _
    rcases requestIds_move (hnumbered.run before) m with hsame | ⟨i, call, id, hhands⟩
    · exact Or.inl hsame
    · obtain ⟨stage, hcall, -⟩ := hhands.2.1
      refine Or.inr ⟨i, call, id, hhands, ?_⟩
      rcases workAt_of_callAt hcall with hwork | ⟨change, hwork, heq⟩
      · exact Or.inl ⟨stage, hwork⟩
      · exact Or.inr ⟨change, stage, hwork, heq, hopened before i change stage hwork⟩
  · rintro before after i change rfl hgate howns hlisteners hnothing
    exact .of_settled hnumbered hlisteners after hgate howns hnothing
  · intro i j change change' stage stage' hi hj hlisteners hlisteners' hevent
    exact (horderly.run hnumbered moves).eq_of_calling hi hj hlisteners hlisteners' hevent
  · intro i change stage hget hlisteners hstuck
    exact .of_stuck (horderly.run hnumbered moves) hlisteners hget hstuck

/-- Of two that subscribe at once, one calls the platform and the other waits at the gate. -/
example :
    let change := Change.subscribe "device.onNameChanged" ⟨"name", .anything, .nothing⟩
    let moves := [.begin (.change change), .begin (.change change)] ++
      [0, 1, 0, 1, 0, 1, 0, 0, 1].map Move.advance
    let client := (ofSettings {} (.direct .up)).run moves
    client.requestIds = [1] ∧ client.workAt 1 = some (.change change .atGate) := by
  decide

end Client

end GatewayClient
