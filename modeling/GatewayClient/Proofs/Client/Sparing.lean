/-
Whose jobs a move is about.  A job is changed by its own steps, by being given up, and if it is an
answer, by the end of the handler that runs for it; every other move spares it.  Nothing but the
first step of an answer starts a handler, and nothing but a sweeper's own step makes it sweep.
-/
import GatewayClient.Proofs.Client.Move

namespace GatewayClient

/-- The answer that a job runs a handler for. -/
def Job.serves? : Job → Option JobId
  | handle served _ _ _ => some served
  | _ => none

/-- When the sweep that a job is at began, and the ids that it has still to look at. -/
def Job.sweeping? : Job → Option (Nat × List UInt64)
  | sweep _ (.removing startedAt ids) => some (startedAt, ids)
  | _ => none

namespace Client

/-- The answer that the job of a number runs a handler for. -/
def serves (c : Client) (j : JobId) : Option JobId :=
  (c.jobs.get? j).bind Job.serves?

/-- The sweep that the job of a number is at. -/
def sweeping (c : Client) (j : JobId) : Option (Nat × List UInt64) :=
  (c.jobs.get? j).bind Job.sweeping?

/-- Between `c` and `c'` no job is changed but those touched, no handler is started but for the
answers that are starting, and no sweep goes on but those of the sweepers. -/
structure Spares (c c' : Client) (touched starting sweepers : List JobId) : Prop where
  nextJob : c.nextJob ≤ c'.nextJob
  kept : ∀ j, j < c.nextJob → j ∉ touched → c'.jobs.get? j = c.jobs.get? j
  serves : ∀ j served, c'.serves j = some served →
    c.serves j = some served ∨ c.nextJob ≤ j ∧ served ∈ starting
  sweeps : ∀ j sweep, c'.sweeping j = some sweep → c.sweeping j = some sweep ∨ j ∈ sweepers

/-- The jobs that a move may change: one that makes a step, with the answer that it runs a handler
for, or one that is given up. -/
def touched (c : Client) : Move → List JobId
  | .advance i => i :: (c.serves i).toList
  | .drop i => [i]
  | _ => []

/-- The answer whose handler is started by a move. -/
def starting (c : Client) : Move → List JobId
  | .advance i =>
    match c.jobs.get? i with
    | some (.answer _ _ (.fresh (some _) _)) => [i]
    | _ => []
  | _ => []

/-- The sweeper that makes a step with a move. -/
def sweepers (c : Client) : Move → List JobId
  | .advance i =>
    match c.jobs.get? i with
    | some (.sweep _ _) => [i]
    | _ => []
  | _ => []

theorem serves_of_get? {c : Client} {i : JobId} {job : Job} (hget : c.jobs.get? i = some job) :
    c.serves i = job.serves? := by
  rw [serves, hget, Option.bind_some]

/-- The number of a job that runs a handler is in use. -/
theorem get?_of_serves {c : Client} {k i : JobId} (hserves : c.serves k = some i) :
    ∃ handler method stage, c.jobs.get? k = some (.handle i handler method stage) := by
  obtain ⟨job, hget, hjob⟩ := Option.bind_eq_some_iff.mp hserves
  cases job with
  | handle served handler method stage =>
      cases hjob
      exact ⟨handler, method, stage, hget⟩
  | call | change | provideAll | withdraw | answer | sweep | receive => cases hjob

namespace Spares

variable {c c₁ c' : Client} {i : JobId} {touched starting sweepers : List JobId}

theorem of_jobs (hnext : c'.nextJob = c.nextJob) (hjobs : c'.jobs = c.jobs) :
    Spares c c' touched starting sweepers where
  nextJob := Nat.le_of_eq hnext.symm
  kept := fun _ _ _ => by rw [hjobs]
  serves := fun j served h => Or.inl (by rwa [Client.serves, hjobs] at h)
  sweeps := fun j sweep h => Or.inl (by rwa [Client.sweeping, hjobs] at h)

theorem trans (h : Spares c c₁ touched starting sweepers)
    (h' : Spares c₁ c' touched starting sweepers) : Spares c c' touched starting sweepers where
  nextJob := Nat.le_trans h.nextJob h'.nextJob
  kept := by
    intro j hj hnot
    rw [h'.kept j (Nat.lt_of_lt_of_le hj h.nextJob) hnot, h.kept j hj hnot]
  serves := by
    intro j served hserves
    rcases h'.serves j served hserves with hserves | ⟨hle, hmem⟩
    · exact h.serves j served hserves
    · exact Or.inr ⟨Nat.le_trans h.nextJob hle, hmem⟩
  sweeps := by
    intro j sweep hsweep
    rcases h'.sweeps j sweep hsweep with hsweep | hmem
    · exact h.sweeps j sweep hsweep
    · exact Or.inr hmem

/-- What is done after a change that leaves the jobs alone. -/
theorem after (h : Spares c₁ c' touched starting sweepers) (hnext : c₁.nextJob = c.nextJob)
    (hjobs : c₁.jobs = c.jobs) : Spares c c' touched starting sweepers :=
  (of_jobs hnext hjobs).trans h

theorem setJob {job : Job} (hi : i ∈ touched)
    (hserves : ∀ served, job.serves? = some served → c.serves i = some served)
    (hsweeps : job.sweeping? = none ∨ i ∈ sweepers) :
    Spares c (c.setJob i job) touched starting sweepers where
  nextJob := Nat.le_refl _
  kept := by
    intro j _ hnot
    apply Dictionary.get?_put_of_ne
    rintro rfl
    exact hnot hi
  serves := by
    intro j served h
    left
    rw [Client.serves, Client.setJob, Dictionary.get?_put] at h
    split at h
    · next heq => exact heq ▸ hserves served h
    · exact h
  sweeps := by
    intro j sweep h
    rw [Client.sweeping, Client.setJob, Dictionary.get?_put] at h
    split at h
    · next heq =>
        rw [Option.bind_some] at h
        rcases hsweeps with hnone | hmem
        · rw [hnone] at h
          cases h
        · exact Or.inr (heq ▸ hmem)
    · exact Or.inl h

/-- A job that runs no handler and is at no sweep is set. -/
theorem setOther {job : Job} (hi : i ∈ touched) (hserves : job.serves? = none)
    (hsweeps : job.sweeping? = none) :
    Spares c (c.setJob i job) touched starting sweepers := by
  refine setJob hi ?_ (.inl hsweeps)
  intro served h
  rw [hserves] at h
  cases h

/-- A sweeper is set. -/
theorem setSweeper {next : Nat} {stage : SweepStage} (hi : i ∈ touched) (hmem : i ∈ sweepers) :
    Spares c (c.setJob i (.sweep next stage)) touched starting sweepers := by
  refine setJob hi ?_ (.inr hmem)
  intro served h
  cases h

theorem removeJob (hi : i ∈ touched) : Spares c (c.removeJob i) touched starting sweepers where
  nextJob := Nat.le_refl _
  kept := by
    intro j _ hnot
    apply Dictionary.get?_erase_of_ne
    rintro rfl
    exact hnot hi
  serves := by
    intro j served h
    left
    rw [Client.serves, Client.removeJob, Dictionary.get?_erase] at h
    split at h
    · cases h
    · exact h
  sweeps := by
    intro j sweep h
    left
    rw [Client.sweeping, Client.removeJob, Dictionary.get?_erase] at h
    split at h
    · cases h
    · exact h

theorem finish (hi : i ∈ touched) (outcome : Outcome) :
    Spares c (c.finish i outcome) touched starting sweepers :=
  (removeJob hi).trans (of_jobs rfl rfl)

theorem of_acts (h : c.Acts c') : Spares c c' touched starting sweepers :=
  of_jobs h.nextJob h.jobs

theorem wake (c : Client) (job : JobId) : Spares c (c.wake job) touched starting sweepers := by
  obtain ⟨ready, heq⟩ := c.wake_eq job
  rw [heq]
  exact of_jobs rfl rfl

theorem wakeAll (c : Client) (jobs : List JobId) :
    Spares c (c.wakeAll jobs) touched starting sweepers := by
  obtain ⟨ready, heq⟩ := c.wakeAll_eq jobs
  rw [heq]
  exact of_jobs rfl rfl

theorem wakeOption (c : Client) (job : Option JobId) :
    Spares c (c.wakeOption job) touched starting sweepers := by
  obtain ⟨ready, heq⟩ := c.wakeOption_eq job
  rw [heq]
  exact of_jobs rfl rfl

theorem start (c : Client) {job : Job} (hserves : ∀ served, job.serves? = some served →
    served ∈ starting) (hsweeps : job.sweeping? = none) :
    Spares c (c.start job).1 touched starting sweepers := by
  let started := { c with jobs := c.jobs.put c.nextJob job, nextJob := c.nextJob + 1 }
  suffices h : Spares c started touched starting sweepers from h.trans (wake started c.nextJob)
  refine ⟨Nat.le_succ _, ?_, ?_, ?_⟩
  · intro j hj _
    exact Dictionary.get?_put_of_ne _ _ (Nat.ne_of_lt hj)
  · intro j served h
    rw [Client.serves, Dictionary.get?_put] at h
    split at h
    · next heq => exact Or.inr ⟨Nat.le_of_eq heq, hserves served h⟩
    · exact Or.inl h
  · intro j sweep h
    left
    rw [Client.sweeping, Dictionary.get?_put] at h
    split at h
    · rw [Option.bind_some, hsweeps] at h
      cases h
    · exact h

/-- A job that runs no handler and is at no sweep is started. -/
theorem startOther (c : Client) {job : Job} (hserves : job.serves? = none)
    (hsweeps : job.sweeping? = none) : Spares c (c.start job).1 touched starting sweepers := by
  refine start c ?_ hsweeps
  intro served h
  rw [hserves] at h
  cases h

theorem perform (c : Client) (d : Deed) : Spares c (c.perform d) touched starting sweepers := by
  cases d with
  | note n => exact of_jobs rfl rfl
  | errand change target => exact (startOther c rfl rfl).trans (of_jobs rfl rfl)
  | change | answer => exact startOther c rfl rfl

theorem performAll (c : Client) (deeds : List Deed) :
    Spares c (c.performAll deeds) touched starting sweepers :=
  performAll_induction (R := (Spares · · touched starting sweepers)) (fun _ => of_jobs rfl rfl)
    trans perform c deeds

theorem dispatch (c : Client) (event : String) (value : Json) :
    Spares c (c.dispatch event value).1 touched starting sweepers := by
  rw [Client.dispatch, runListeners_eq_performAll]
  exact performAll c _

theorem deliver (c : Client) (text : String) (answering : Bool) :
    Spares c (c.deliver text answering).1 touched starting sweepers := by
  rcases c.deliver_cases text answering with ⟨r, ready, -, heq⟩ | ⟨-, heq⟩
  · rw [heq]
    exact of_jobs rfl rfl
  · rw [heq]
    exact performAll c _

theorem offer (c : Client) (sender : JobId) (frame : Json) :
    Spares c (c.offer sender frame).1 touched starting sweepers := by
  obtain ⟨link, heq⟩ := c.offer_eq sender frame
  rw [heq]
  exact of_jobs rfl rfl

theorem offerAgain (c : Client) (sender : JobId) (frame : Json) :
    Spares c (c.offerAgain sender frame).1 touched starting sweepers := by
  obtain ⟨link, heq⟩ := c.offerAgain_eq sender frame
  rw [heq]
  exact of_jobs rfl rfl

theorem stepAnswer? {id : Json} {method : String} {stage : AnswerStage} (hi : i ∈ touched)
    (hget : c.jobs.get? i = some (.answer id method stage))
    (hstarting : ∀ handler params, stage = .fresh (some handler) params → i ∈ starting)
    (hstep : c.stepAnswer? i id method stage = some c') :
    Spares c c' touched starting sweepers := by
  cases stage with
  | fresh handler params =>
      cases handler with
      | none =>
          cases hstep
          exact setOther hi rfl rfl
      | some handler =>
          cases hstep
          refine (start c (fun served h => ?_) rfl).trans (setOther hi rfl rfl)
          cases h
          exact hstarting handler params rfl
  | running => cases hstep
  | ready outcome =>
      have hoffer : Spares c (c.offer i (Response.ofOutcome id outcome).toJson).1 touched
          starting sweepers := offer c i _
      rw [Client.stepAnswer?] at hstep
      split at hstep
      · next heq =>
          cases hstep
          exact (heq ▸ hoffer).trans (setOther hi rfl rfl)
      · next heq =>
          cases hstep
          exact (heq ▸ hoffer).trans (removeJob hi)
  | crowded outcome =>
      have hoffer : Spares c (c.offerAgain i (Response.ofOutcome id outcome).toJson).1 touched
          starting sweepers := offerAgain c i _
      rw [Client.stepAnswer?] at hstep
      split at hstep
      · cases hstep
      · next heq =>
          cases hstep
          exact (heq ▸ hoffer).trans (removeJob hi)

theorem finishHandling (c : Client) {served : JobId} (outcome : Outcome) (hi : i ∈ touched)
    (hserved : served ∈ touched) :
    Spares c (c.finishHandling i served outcome) touched starting sweepers := by
  rcases c.finishHandling_cases i served outcome with heq | ⟨id, method, -, heq⟩
  · rw [heq]
    exact removeJob hi
  · rw [heq]
    exact ((removeJob hi).trans (setOther hserved rfl rfl)).trans (wake _ served)

theorem stepHandle? {served : JobId} {handler : Handler} {method : String} {stage : HandlingStage}
    (hi : i ∈ touched) (hserved : served ∈ touched)
    (hget : c.jobs.get? i = some (.handle served handler method stage))
    (hstep : c.stepHandle? i served handler method stage = some c') :
    Spares c c' touched starting sweepers := by
  rcases stepHandle_cases hstep with ⟨outcome, rfl⟩ | ⟨signals, notes, stage', rfl⟩
  · exact finishHandling c _ hi hserved
  · refine after (setJob hi ?_ (.inl rfl)) rfl rfl
    rintro _ ⟨⟩
    exact serves_of_get? hget

theorem finishChange (c : Client) (change : Change) (result : Except Failure Changed)
    (hi : i ∈ touched) : Spares c (c.finishChange i change result) touched starting sweepers := by
  unfold Client.finishChange
  dsimp only
  split
  · exact after (finish hi _) rfl rfl
  · exact finish hi _

theorem stepProvideAll? {todo : List (String × Handler)} {made : List String} {stage : ChangeStage}
    (hi : i ∈ touched) (hstep : c.stepProvideAll? i todo made stage = some c') :
    Spares c c' touched starting sweepers := by
  cases todo with
  | nil =>
      cases hstep
      exact finish hi _
  | cons head rest =>
      rw [Client.stepProvideAll?] at hstep
      split at hstep
      · cases hstep
      · next hmoved =>
          cases hstep
          exact (of_acts (Turn.change hmoved).acts).trans (setOther hi rfl rfl)
      all_goals
        next hover =>
          cases hstep
          exact (of_acts (Turn.changeOver hover).acts).trans (setOther hi rfl rfl)

theorem stepWithdraw? {reason : Failure} {todo : List String} {stage : ChangeStage}
    (hi : i ∈ touched) (hstep : c.stepWithdraw? i reason todo stage = some c') :
    Spares c c' touched starting sweepers := by
  cases todo with
  | nil =>
      cases hstep
      exact finish hi _
  | cons event rest =>
      rw [Client.stepWithdraw?] at hstep
      split at hstep
      · cases hstep
      · next hmoved =>
          cases hstep
          exact (of_acts (Turn.change hmoved).acts).trans (setOther hi rfl rfl)
      · next hover =>
          cases hstep
          exact (of_acts (Turn.changeOver hover).acts).trans (setOther hi rfl rfl)

theorem stepSweep? {next : Nat} {stage : SweepStage} (hi : i ∈ touched) (hmem : i ∈ sweepers)
    (hstep : c.stepSweep? i next stage = some c') : Spares c c' touched starting sweepers := by
  cases stage with
  | resting =>
      rw [Client.stepSweep?] at hstep
      split at hstep
      · cases hstep
      · cases hstep
        exact setSweeper hi hmem
  | removing startedAt ids =>
      cases ids with
      | nil =>
          cases hstep
          exact setSweeper hi hmem
      | cons id rest =>
          cases hstep
          have hsweep : Spares c (c.sweepOne startedAt id) touched starting sweepers :=
            after (wakeOption { c with table := (c.table.removeIfExpired startedAt id).1 } _) rfl
              rfl
          exact hsweep.trans (setSweeper hi hmem)

theorem stepReceive? (hi : i ∈ touched) (hstep : c.stepReceive? i = some c') :
    Spares c c' touched starting sweepers := by
  rw [Client.stepReceive?] at hstep
  split at hstep
  · cases hstep
    exact after (deliver _ _ true) rfl rfl
  · split at hstep
    · cases hstep
    · cases hstep
      exact removeJob hi

theorem stepJob? (hstep : c.stepJob? i = some c') :
    Spares c c' (c.touched (.advance i)) (c.starting (.advance i))
      (c.sweepers (.advance i)) := by
  have hi : i ∈ c.touched (.advance i) := List.mem_cons_self
  rw [Client.stepJob?] at hstep
  cases hget : c.jobs.get? i with
  | none =>
      rw [hget] at hstep
      cases hstep
  | some job =>
      rw [hget] at hstep
      cases job with
      | call call expected stage =>
          simp only at hstep
          split at hstep
          · cases hstep
          · next hmoved =>
              cases hstep
              exact (of_acts (Turn.call hmoved).acts).trans (setOther hi rfl rfl)
          · next hover =>
              cases hstep
              exact (of_acts (Turn.callOver hover).acts).trans (finish hi _)
      | change change stage =>
          simp only at hstep
          split at hstep
          · cases hstep
          · next hmoved =>
              cases hstep
              exact (of_acts (Turn.change hmoved).acts).trans (setOther hi rfl rfl)
          · next hover =>
              cases hstep
              exact (of_acts (Turn.changeOver hover).acts).trans (finishChange _ change _ hi)
      | provideAll todo made stage => exact stepProvideAll? hi hstep
      | withdraw reason todo stage => exact stepWithdraw? hi hstep
      | answer id method stage =>
          refine stepAnswer? hi hget ?_ hstep
          rintro handler params rfl
          simp [starting, hget]
      | handle served handler method stage =>
          refine stepHandle? hi ?_ hget hstep
          simp [touched, serves_of_get? hget, Job.serves?]
      | sweep next stage =>
          refine stepSweep? hi ?_ hstep
          simp [sweepers, hget]
      | receive => exact stepReceive? hi hstep

theorem dropWork (c : Client) (work : Work) :
    Spares c ((c.dropWork i work).removeJob i) [i] starting sweepers :=
  (of_acts (.dropWork c i work)).trans (removeJob List.mem_cons_self)

theorem dropJob (c : Client) (i : JobId) : Spares c (c.dropJob i) [i] starting sweepers := by
  have hremove : Spares c (c.removeJob i) [i] starting sweepers := removeJob List.mem_cons_self
  rw [Client.dropJob]
  cases hget : c.jobs.get? i with
  | none => exact of_jobs rfl rfl
  | some job =>
      cases job with
      | call call expected stage => exact dropWork c (.call call stage)
      | change change stage => exact dropWork c (.change change stage)
      | provideAll todo made stage =>
          cases todo with
          | nil => exact hremove
          | cons head rest => exact dropWork c (.change (.provide _ _) stage)
      | withdraw reason todo stage =>
          cases todo with
          | nil => exact hremove
          | cons event rest => exact dropWork c (.change (.revoke event) stage)
      | answer id method stage =>
          cases stage with
          | crowded outcome =>
              have hwithdraw : Spares c (c.withdrawOffer i) [i] starting sweepers := by
                obtain ⟨link, ready, heq⟩ := c.withdrawOffer_eq i
                rw [heq]
                exact of_jobs rfl rfl
              exact hwithdraw.trans (removeJob List.mem_cons_self)
          | fresh | running | ready => exact hremove
      | handle | sweep | receive => exact hremove

end Spares

/-- What a move leaves alone. -/
theorem spares_move (c : Client) (m : Move) :
    Spares c (c.move m) (c.touched m) (c.starting m) (c.sweepers m) := by
  cases m with
  | advance i =>
      rw [move]
      cases hstep : c.stepJob? i with
      | none => exact .of_jobs rfl rfl
      | some c' => exact .stepJob? hstep
  | begin activity => apply Spares.startOther <;> cases activity <;> rfl
  | startSweeper | startReceiver => exact .startOther c rfl rfl
  | drop i => exact .dropJob c i
  | deliver text answering => exact .deliver c text answering
  | dispatch event value => exact .dispatch c event value
  | arrive text | closeInbox =>
      exact .after (.wakeAll _ _) rfl rfl
  | takeFrame =>
      rw [move, takeFrame]
      split
      · exact .of_jobs rfl rfl
      · exact .after (.wakeOption _ _) rfl rfl
  | closeChannel =>
      rw [move, closeChannel]
      split
      · exact .of_jobs rfl rfl
      · exact .after (.wakeAll _ _) rfl rfl
  | setLink state =>
      rw [move, setLink]
      split <;> exact .of_jobs rfl rfl
  | release name =>
      rw [move, release]
      split
      · exact .of_jobs rfl rfl
      · exact .after (.wake _ _) rfl rfl
  | skip ms | elapse ms => exact .after (.wakeAll _ _) rfl rfl

/-- A job that no handler runs for is touched by its own steps and by being given up. -/
theorem eq_of_touched {c : Client} {m : Move} {i : JobId} (hunserved : ∀ k, c.serves k ≠ some i)
    (htouched : i ∈ c.touched m) : m = .advance i ∨ m = .drop i := by
  cases m with
  | advance j =>
      rcases List.mem_cons.mp htouched with rfl | hserves
      · exact Or.inl rfl
      · exact absurd (Option.mem_toList.mp hserves) (hunserved j)
  | drop j =>
      rw [List.mem_singleton.mp htouched]
      exact Or.inr rfl
  | _ => cases htouched

theorem mem_starting {c : Client} {m : Move} {i : JobId} (hmem : i ∈ c.starting m) :
    m = .advance i ∧ ∃ id method stage, c.jobs.get? i = some (.answer id method stage) := by
  cases m with
  | advance j =>
      rw [starting] at hmem
      split at hmem
      · next hget =>
          rw [List.mem_singleton] at hmem
          subst hmem
          exact ⟨rfl, _, _, _, hget⟩
      · cases hmem
  | _ => cases hmem

theorem mem_sweepers {c : Client} {m : Move} {j : JobId} (hmem : j ∈ c.sweepers m) :
    m = .advance j ∧ ∃ next stage, c.jobs.get? j = some (.sweep next stage) := by
  cases m with
  | advance i =>
      rw [sweepers] at hmem
      split at hmem
      · next hget =>
          rw [List.mem_singleton] at hmem
          subst hmem
          exact ⟨rfl, _, _, hget⟩
      · cases hmem
  | _ => cases hmem

/-- A job that is at a sweep has been at it, goes on with it, or begins it. -/
theorem sweeping_move {c : Client} {m : Move} {j : JobId} {startedAt : Nat} {ids : List UInt64}
    (hsweep : (c.move m).sweeping j = some (startedAt, ids)) :
    c.sweeping j = some (startedAt, ids) ∨
      m = .advance j ∧ ((∃ id, c.sweeping j = some (startedAt, id :: ids)) ∨
        (∃ next, c.jobs.get? j = some (.sweep next .resting)) ∧ startedAt = c.clock ∧
          ids = c.table.expiredIds c.clock) := by
  rcases (c.spares_move m).sweeps j _ hsweep with hold | hmem
  · exact .inl hold
  · obtain ⟨rfl, next, stage, hget⟩ := mem_sweepers hmem
    have hset : ∀ {client : Client} {next' : Nat} {stage' : SweepStage},
        c.stepJob? j = some (client.setJob j (.sweep next' stage')) →
        (Job.sweep next' stage').sweeping? = some (startedAt, ids) := by
      intro client next' stage' hstep
      rw [move, hstep, Option.getD_some, sweeping, setJob, Dictionary.get?_put_self] at hsweep
      exact hsweep
    cases stage with
    | resting =>
        by_cases hearly : c.now < next
        · have hstuck : c.stepJob? j = none := by simp [stepJob?, hget, stepSweep?, hearly]
          rw [move, hstuck, Option.getD_none] at hsweep
          exact .inl hsweep
        · cases hset (by simp only [stepJob?, hget, stepSweep?, hearly, ↓reduceIte]; rfl)
          exact .inr ⟨rfl, .inr ⟨⟨next, hget⟩, rfl, rfl⟩⟩
    | removing startedAt' ids' =>
        cases ids' with
        | nil => cases hset (by simp only [stepJob?, hget, stepSweep?]; rfl)
        | cons id rest =>
            cases hset (by simp only [stepJob?, hget, stepSweep?]; rfl)
            exact .inr ⟨rfl, .inl ⟨id, by rw [sweeping, hget]; rfl⟩⟩

/-- What a handler runs for has a number that was given out, and does not run a handler itself. -/
def Served (c : Client) : Prop :=
  ∀ j served, c.serves j = some served → served < c.nextJob ∧ c.serves served = none

/-- No handler runs for itself. -/
theorem Served.ne {c : Client} (h : c.Served) {j served : JobId}
    (hserves : c.serves j = some served) : j ≠ served := by
  rintro rfl
  have hnone := (h j j hserves).2
  rw [hserves] at hnone
  cases hnone

theorem Served.ofSettings (settings : Settings) (link : Link) :
    (ofSettings settings link).Served := by
  intro j served hserves
  cases hserves

theorem Served.move {c : Client} (h : c.Served) (hnumbered : c.Numbered) (m : Move) :
    (c.move m).Served := by
  have hspares := c.spares_move m
  -- No number that was given out belongs to a handler that was not there before.
  have hnone : ∀ j, j < c.nextJob → c.serves j = none → (c.move m).serves j = none := by
    intro j hj hserves
    apply Option.eq_none_iff_forall_ne_some.mpr
    intro served hserves'
    rcases hspares.serves j served hserves' with hold | ⟨hle, -⟩
    · rw [hserves] at hold
      cases hold
    · exact Nat.not_lt_of_le hle hj
  intro j served hserves
  have hserved : served < c.nextJob ∧ c.serves served = none := by
    rcases hspares.serves j served hserves with hold | ⟨-, hmem⟩
    · exact h j served hold
    · obtain ⟨-, id, method, stage, hget⟩ := mem_starting hmem
      exact ⟨hnumbered served _ hget, serves_of_get? hget⟩
  exact ⟨Nat.lt_of_lt_of_le hserved.1 hspares.nextJob, hnone served hserved.1 hserved.2⟩

theorem Served.run {c : Client} (h : c.Served) (hnumbered : c.Numbered) (moves : List Move) :
    (c.run moves).Served := by
  induction moves generalizing c with
  | nil => exact h
  | cons m rest ih => exact ih (h.move hnumbered m) (hnumbered.move m)

end Client

end GatewayClient
