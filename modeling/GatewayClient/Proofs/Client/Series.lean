/-
A job that makes several changes one after the other: it provides handlers, and when one is refused
it takes back those that it has registered.  What it shows of its changes and of their requests is
told by the history of who provides, as long as nobody else changes that.
-/
import GatewayClient.Proofs.Client.Conclusions
import GatewayClient.Proofs.Client.OwnStep

namespace GatewayClient

namespace Job

/-- A job of several changes at another stage of its first. -/
def atStage (stage : ChangeStage) : Job → Job
  | .provideAll todo made _ => .provideAll todo made stage
  | .withdraw reason todo _ => .withdraw reason todo stage
  | job => job

/-- A job of several changes when its first has concluded. -/
def next (result : Except Failure Changed) : Job → Job
  | .provideAll ((event, _) :: rest) made _ =>
    match result with
    | .ok .registered => .provideAll rest (made ++ [event]) .fresh
    | .ok _ => .provideAll rest made .fresh
    | .error f => .withdraw f made .fresh
  | .withdraw reason (_ :: rest) _ => .withdraw reason rest .fresh
  | job => job

end Job

/-- What a job that provides `handlers`, all or none, has still to do after the changes that it has
made: to provide the rest as long as none is refused, and then to take back those registered before.
-/
inductive Pursues (handlers : List (String × Handler)) : List Made → Job → Prop
  | providing {past : List Made} {done todo : List (String × Handler)} {stage : ChangeStage}
    (hhandlers : handlers = done ++ todo)
    (hpast : past.map Made.change = done.map fun entry => .provide entry.1 entry.2)
    (hok : ∀ x ∈ past, ∃ changed, x.result = .ok changed) :
    Pursues handlers past (.provideAll todo (past.filterMap Made.registered?) stage)
  | withdrawing {past withdrawn : List Made} {done rest : List (String × Handler)}
    {entry : String × Handler} {reason : Failure} {request : Option Bool}
    {gone todo : List String} {stage : ChangeStage}
    (hhandlers : handlers = done ++ entry :: rest)
    (hpast : past.map Made.change = done.map fun entry => .provide entry.1 entry.2)
    (hok : ∀ x ∈ past, ∃ changed, x.result = .ok changed)
    (hregistered : past.filterMap Made.registered? = gone ++ todo)
    (hwithdrawn : withdrawn.map Made.change = gone.map .revoke) :
    Pursues handlers (past ++ ⟨.provide entry.1 entry.2, .error reason, request⟩ :: withdrawn)
      (.withdraw reason todo stage)

namespace Pursues

variable {handlers done : List (String × Handler)} {past : List Made} {job : Job} {change : Change}
  {stage : ChangeStage} {event : String}

/-- Only an event that has been provided for has been registered. -/
theorem mem_of_registered
    (hpast : past.map Made.change = done.map fun entry => .provide entry.1 entry.2)
    (hmem : event ∈ past.filterMap Made.registered?) : event ∈ done.map Prod.fst := by
  obtain ⟨x, hx, hregistered⟩ := List.mem_filterMap.mp hmem
  have hevent : x.change.event = event := by
    unfold Made.registered? at hregistered
    split at hregistered <;> cases hregistered
    rfl
  have hchange : x.change ∈ past.map Made.change := List.mem_map_of_mem hx
  rw [hpast] at hchange
  obtain ⟨entry, hentry, heq⟩ := List.mem_map.mp hchange
  rw [← hevent, ← heq]
  exact List.mem_map_of_mem hentry

theorem atStage (h : Pursues handlers past job) (stage : ChangeStage) :
    Pursues handlers past (job.atStage stage) := by
  cases h with
  | providing hhandlers hpast hok => exact .providing hhandlers hpast hok
  | withdrawing hhandlers hpast hok hregistered hwithdrawn =>
      exact .withdrawing hhandlers hpast hok hregistered hwithdrawn

theorem work?_atStage (h : Pursues handlers past job)
    (hwork : job.work? = some (.change change stage)) (stage' : ChangeStage) :
    (job.atStage stage').work? = some (.change change stage') := by
  cases h with
  | @providing _ _ todo =>
      cases todo <;> cases hwork
      rfl
  | @withdrawing _ _ _ _ _ _ _ _ todo =>
      cases todo <;> cases hwork
      rfl

/-- What it is at is a change of who provides for one of the events. -/
theorem event_mem (h : Pursues handlers past job)
    (hwork : job.work? = some (.change change stage)) :
    change.ofListeners = false ∧ change.event ∈ handlers.map Prod.fst := by
  cases h with
  | @providing _ done todo _ hhandlers =>
      cases todo with
      | nil => cases hwork
      | cons entry rest =>
          cases hwork
          refine ⟨rfl, ?_⟩
          rw [hhandlers]
          exact List.mem_map_of_mem (List.mem_append_right _ List.mem_cons_self)
  | @withdrawing _ _ done _ _ _ _ gone todo _ hhandlers hpast _ hregistered =>
      cases todo with
      | nil => cases hwork
      | cons event rest =>
          cases hwork
          refine ⟨rfl, ?_⟩
          have hmem : event ∈ done.map Prod.fst := by
            apply mem_of_registered hpast
            rw [hregistered]
            exact List.mem_append_right _ List.mem_cons_self
          rw [hhandlers, List.map_append]
          exact List.mem_append_left _ hmem

/-- A provision that has been granted is one of those done. -/
theorem granted {entry : String × Handler} {rest : List (String × Handler)}
    (hhandlers : handlers = done ++ entry :: rest)
    (hpast : past.map Made.change = done.map fun entry => .provide entry.1 entry.2)
    (hok : ∀ x ∈ past, ∃ changed, x.result = .ok changed) (changed : Changed)
    (request : Option Bool) (stage : ChangeStage) :
    let x : Made := ⟨.provide entry.1 entry.2, .ok changed, request⟩
    Pursues handlers (past ++ [x])
      (.provideAll rest (past.filterMap Made.registered? ++ x.registered?.toList) stage) := by
  intro x
  have hmade : past.filterMap Made.registered? ++ x.registered?.toList =
      (past ++ [x]).filterMap Made.registered? := by
    rw [List.filterMap_append]
    cases hx : x.registered? <;> simp [hx]
  rw [hmade]
  refine .providing (hhandlers.trans (List.append_cons done entry rest)) ?_ fun y hy => ?_
  · rw [List.map_append, List.map_append, hpast]
    rfl
  · rcases List.mem_append.mp hy with hmem | hmem
    · exact hok y hmem
    · exact ⟨changed, by rw [List.mem_singleton.mp hmem]⟩

/-- It begins each change anew. -/
theorem begun?_next (h : Pursues handlers past job)
    (hwork : job.work? = some (.change change stage)) (result : Except Failure Changed) :
    (job.next result).begun? = none := by
  cases h with
  | @providing past _ todo =>
      cases todo with
      | nil => cases hwork
      | cons entry rest =>
          cases result with
          | error f =>
              rw [Job.next]
              cases past.filterMap Made.registered? <;> rfl
          | ok changed => cases changed <;> cases rest <;> rfl
  | @withdrawing _ _ _ _ _ _ _ _ todo =>
      cases todo with
      | nil => cases hwork
      | cons event rest => cases rest <;> rfl

/-- When the change that it is at has concluded, it goes on with what is left. -/
theorem next (h : Pursues handlers past job) (hwork : job.work? = some (.change change stage))
    (result : Except Failure Changed) (request : Option Bool) :
    Pursues handlers (past ++ [⟨change, result, request⟩]) (job.next result) := by
  cases h with
  | @providing _ done todo _ hhandlers hpast hok =>
      cases todo with
      | nil => cases hwork
      | cons entry rest =>
          cases hwork
          cases result with
          | error f =>
              have hnone : ([] : List Made).map Made.change = ([] : List String).map .revoke := rfl
              exact .withdrawing hhandlers hpast hok (List.nil_append _).symm hnone
          | ok changed =>
              have hnext := granted hhandlers hpast hok changed request .fresh
              cases changed <;> simpa [Made.registered?, Job.next, Change.event] using hnext
  | @withdrawing _ _ done _ _ _ _ gone todo _ hhandlers hpast hok hregistered hwithdrawn =>
      cases todo with
      | nil => cases hwork
      | cons event rest =>
          cases hwork
          rw [List.append_assoc, List.cons_append]
          refine .withdrawing hhandlers hpast hok
            (hregistered.trans (List.append_cons gone event rest)) ?_
          rw [List.map_append, List.map_append, hwithdrawn]
          rfl

/-- There is nothing left to take back. -/
theorem of_withdrawn {f : Failure} (h : Pursues handlers past (.withdraw f [] stage)) :
    ∃ past' withdrawn done entry rest request,
      past = past' ++ ⟨.provide entry.1 entry.2, .error f, request⟩ :: withdrawn ∧
      handlers = done ++ entry :: rest ∧
      past'.map Made.change = done.map (fun entry => .provide entry.1 entry.2) ∧
      (∀ x ∈ past', ∃ changed, x.result = .ok changed) ∧
      withdrawn.map Made.change = (past'.filterMap Made.registered?).map .revoke := by
  cases h with
  | withdrawing hhandlers hpast hok hregistered hwithdrawn =>
      rw [List.append_nil] at hregistered
      exact ⟨_, _, _, _, _, _, rfl, hhandlers, hpast, hok, hregistered ▸ hwithdrawn⟩

end Pursues

namespace Client

variable {c c' : Client} {i : JobId} {m : Move} {job : Job} {change : Change}
  {stage stage' : ChangeStage} {handlers : List (String × Handler)} {past : List Made}
  {before p : Standing} {moves : List Move}

/-- What the moves of a run show, each in the state in which it is made. -/
def shown {α : Type} (look : Client → Move → Option α) (c : Client) : List Move → List α
  | [] => []
  | m :: rest => (look c m).toList ++ (c.move m).shown look rest

/-- The change that a job concludes with a move, and what comes of it. -/
def concludes? (i : JobId) (c : Client) (m : Move) : Option (Change × Except Failure Changed) :=
  if m = .advance i then
    match c.workAt i with
    | some (.change change (.pruning result)) => some (change, result)
    | _ => none
  else none

/-- The change whose request a job brings to the link with a move and has not to wait, and whether
the link takes it. -/
def brings? (i : JobId) (c : Client) (m : Move) : Option (Change × Bool) :=
  if m = .advance i then
    match c.workAt i, (c.move m).workAt i with
    | some (.change change stage), some (.change _ stage') =>
      (stage.brings? stage').map fun taken => (change, taken)
    | _, _ => none
  else none

theorem shown_append {α : Type} (look : Client → Move → Option α) (c : Client)
    (first second : List Move) :
    c.shown look (first ++ second) = c.shown look first ++ (c.run first).shown look second := by
  induction first generalizing c with
  | nil => rfl
  | cons m rest ih =>
      rw [List.cons_append, shown, shown, ih, List.append_assoc]
      rfl

theorem shown_concat {α : Type} (look : Client → Move → Option α) (c : Client)
    (moves : List Move) (m : Move) :
    c.shown look (moves ++ [m]) = c.shown look moves ++ (look (c.run moves) m).toList := by
  rw [shown_append, shown, shown, List.append_nil]

/-- One step of a job of several changes. -/
inductive SeriesStep (c : Client) (i : JobId) (job : Job) : Client → Prop
  | stuck (hstage : ∀ change result, job.work? ≠ some (.change change (.pruning result))) :
    SeriesStep c i job (c.pause i)
  | provided {made : List String} {stage : ChangeStage} (hjob : job = .provideAll [] made stage) :
    SeriesStep c i job (c.finish i (.ok .null))
  | withdrawn {reason : Failure} {stage : ChangeStage} (hjob : job = .withdraw reason [] stage) :
    SeriesStep c i job (c.finish i (.error reason))
  | moved {change : Change} {stage stage' : ChangeStage} {c₁ : Client}
    (hwork : job.work? = some (.change change stage))
    (hstep : ChangeStep c i change stage c₁ stage') :
    SeriesStep c i job (c₁.setJob i (job.atStage stage'))
  | concluded {change : Change} {result : Except Failure Changed}
    (hwork : job.work? = some (.change change (.pruning result))) :
    SeriesStep c i job ((c.setGatesOf change
      ((c.gatesOf change).prune change.event i)).setJob i (job.next result))

theorem seriesStep_provideAll {todo : List (String × Handler)} {made : List String}
    (hget : c.jobs.get? i = some (.provideAll todo made stage)) :
    SeriesStep c i (.provideAll todo made stage) (c.move (.advance i)) := by
  rw [move, stepJob?, hget]
  dsimp only
  cases todo with
  | nil => exact .provided rfl
  | cons entry rest =>
      obtain ⟨event, handler⟩ := entry
      rw [stepProvideAll?]
      cases hstep : c.stepChange i (.provide event handler) stage with
      | blocked =>
          refine .stuck fun change result hwork => ?_
          cases hwork
          cases hstep
      | moved c₁ stage' => exact .moved rfl (stepChange_moved hstep)
      | «over» c₁ result =>
          obtain ⟨rfl, rfl⟩ := stepChange_over hstep
          let job := Job.provideAll ((event, handler) :: rest) made (.pruning result)
          have hwork : job.work? = some (.change (.provide event handler) (.pruning result)) := rfl
          have hconcluded := SeriesStep.concluded (c := c) (i := i) hwork
          cases result with
          | error f => exact hconcluded
          | ok changed => cases changed <;> exact hconcluded

theorem seriesStep_withdraw {reason : Failure} {todo : List String}
    (hget : c.jobs.get? i = some (.withdraw reason todo stage)) :
    SeriesStep c i (.withdraw reason todo stage) (c.move (.advance i)) := by
  rw [move, stepJob?, hget]
  dsimp only
  cases todo with
  | nil => exact .withdrawn rfl
  | cons event rest =>
      rw [stepWithdraw?]
      cases hstep : c.stepChange i (.revoke event) stage with
      | blocked =>
          refine .stuck fun change result hwork => ?_
          cases hwork
          cases hstep
      | moved c₁ stage' => exact .moved rfl (stepChange_moved hstep)
      | «over» c₁ result =>
          obtain ⟨rfl, rfl⟩ := stepChange_over hstep
          exact .concluded rfl

theorem seriesStep (h : Pursues handlers past job) (hget : c.jobs.get? i = some job) :
    SeriesStep c i job (c.move (.advance i)) := by
  cases h with
  | providing => exact seriesStep_provideAll hget
  | withdrawing => exact seriesStep_withdraw hget

theorem concludes?_of_pruning {result : Except Failure Changed} (hget : c.jobs.get? i = some job)
    (hwork : job.work? = some (.change change (.pruning result))) :
    c.concludes? i (.advance i) = some (change, result) := by
  rw [concludes?, if_pos rfl, workAt_of_work? hget hwork rfl]

theorem concludes?_eq_none (hget : c.jobs.get? i = some job)
    (hstage : ∀ change result, job.work? ≠ some (.change change (.pruning result))) :
    c.concludes? i (.advance i) = none := by
  rw [concludes?, if_pos rfl]
  split
  · next change result hwork =>
      rw [workAt_of_get? hget] at hwork
      exact absurd (Option.filter_eq_some_iff.mp hwork).1 (hstage change result)
  · rfl

theorem concludes?_of_others (hne : m ≠ .advance i) : c.concludes? i m = none := by
  rw [concludes?, if_neg hne]

theorem brings?_of_others (hne : m ≠ .advance i) : c.brings? i m = none := by
  rw [brings?, if_neg hne]

theorem brings?_of_idle (hwork : (c.move (.advance i)).workAt i = none) :
    c.brings? i (.advance i) = none := by
  rw [brings?, if_pos rfl, hwork]
  split
  · next hnone => cases hnone
  · rfl

theorem brings?_of_stuck (hmove : c.move (.advance i) = c.pause i) :
    c.brings? i (.advance i) = none := by
  rw [brings?, if_pos rfl, hmove]
  split
  · next change stage _ stage' hwork hwork' =>
      cases hwork.symm.trans hwork'
      cases stage with
      | calling stage => cases stage <;> rfl
      | fresh | referring | atGate | releasing | pruning => rfl
  · rfl

theorem brings?_of_moved {job' : Job} (hget : c.jobs.get? i = some job)
    (hwork : job.work? = some (.change change stage))
    (hget' : (c.move (.advance i)).jobs.get? i = some job')
    (hwork' : job'.work? = some (.change change stage')) (hbegun : stage' ≠ .fresh) :
    c.brings? i (.advance i) = (stage.brings? stage').map fun taken => (change, taken) := by
  have hafter : (c.move (.advance i)).workAt i = some (.change change stage') := by
    apply workAt_of_work? hget' hwork'
    cases stage' <;> first | rfl | exact absurd rfl hbegun
  rw [brings?, if_pos rfl, hafter]
  cases stage with
  | fresh =>
      rw [workAt_of_get? hget, Job.begun?, hwork]
      rfl
  | referring | atGate | calling | releasing | pruning => rw [workAt_of_work? hget hwork rfl]

theorem isUp_of_refused {call : Call} {stage stage' : CallStage}
    (hmoved : c.stepCall i call stage = .moved c' stage')
    (hrefused : stage.brings? stage' = some false) : c.link.isUp = false := by
  cases stage with
  | entered id slot =>
      have hoffer : (c.offer i (requestFrame call id)).2 = .failed := by
        rw [stepCall, sendCall] at hmoved
        cases hmoved
        generalize (c.offer i (requestFrame call id)).2 = step at hrefused ⊢
        cases step <;> first | rfl | cases hrefused
      exact isUp_of_offer hoffer
  | crowded id slot =>
      have hoffer : (c.offerAgain i (requestFrame call id)).2 = .failed := by
        rw [stepCall] at hmoved
        rcases hsending : c.offerAgain i (requestFrame call id) with ⟨sender, step⟩
        rw [hsending] at hmoved
        cases step with
        | waits => cases hmoved
        | failed => rfl
        | sent =>
            cases hmoved
            cases hrefused
      exact isUp_of_offerAgain hoffer
  | fresh | waiting | overdue | «over» => cases hrefused

/-- A request that the link takes is handed over. -/
theorem handsOver_of_brings (hnumbered : c.Numbered)
    (hbrings : c.brings? i m = some (change, true)) :
    ∃ id, c.HandsOver m i (c.changeCall change) id := by
  rw [brings?] at hbrings
  split at hbrings
  · next hm =>
      subst hm
      split at hbrings
      · next change' stage change'' stage' hbefore hafter =>
          obtain ⟨taken, hstages, heq⟩ := Option.map_eq_some_iff.mp hbrings
          cases heq
          obtain ⟨stage, id, id', slot, deadline, rfl, hunsent, rfl⟩ :=
            ChangeStage.of_brings_true hstages
          have hcall : c.callAt i = some (c.changeCall change, stage) := by
            rw [callAt, hbefore, Option.bind_some, callOf?_calling]
            rintro rfl
            cases hunsent
          have hcall' : (c.move (.advance i)).callAt i =
              some ((c.move (.advance i)).changeCall change'', .waiting id' slot deadline) := by
            rw [callAt, hafter]
            rfl
          rcases (turn_of_move hnumbered hcall hcall').2 with
            ⟨rfl, -⟩ | ⟨rfl, -⟩ | ⟨-, table, sent, hstep, -, hsent⟩
          · cases hunsent
          · cases hunsent
          · cases hstep with
            | hand hunsent hentry =>
                refine ⟨_, rfl, ⟨stage, hcall, hunsent⟩, hsent, ?_⟩
                rw [requestIds, hsent, filterMap_handed]
      · cases hbrings
  · cases hbrings

/-- Who provides while a job is at a change, which has brought its request or not. -/
inductive Abides (c : Client) (events : List String) (p : Standing) :
    Option Work → List (Change × Bool) → Prop
  | idle (hall : ∀ event ∈ events, c.providers.get? event = p event) : Abides c events p none []
  | amid {change : Change} {stage : ChangeStage} {request : Option Bool}
    (halong : change.Along (p change.event) stage request (c.providers.get? change.event))
    (hothers : ∀ event ∈ events, event ≠ change.event → c.providers.get? event = p event) :
    Abides c events p (some (.change change stage))
      (request.toList.map fun taken => (change, taken))

/-- The job `i`, which provides `handlers`, all or none, since `before` told who provides: the
changes that it has made, who provided after them, and what it has shown of them and of the change
that it is at. -/
structure Series (c : Client) (i : JobId) (handlers : List (String × Handler))
    (before : Standing) (concluded : List (Change × Except Failure Changed))
    (brought : List (Change × Bool)) (job : Job) (past : List Made) (p : Standing)
    (current : List (Change × Bool)) : Prop where
  there : c.jobs.get? i = some job
  pursues : Pursues handlers past job
  history : History before past p
  abides : c.Abides (handlers.map Prod.fst) p job.work? current
  concluded : concluded = past.map Made.conclusion
  brought : brought = past.flatMap Made.asked ++ current

/-- Before its next change has begun, nothing is under way. -/
theorem abides_of_idle (h : Pursues handlers past job) (hidle : job.begun? = none)
    (hall : ∀ event ∈ handlers.map Prod.fst, c.providers.get? event = p event) :
    c.Abides (handlers.map Prod.fst) p job.work? [] := by
  rw [Job.begun?] at hidle
  cases hwork : job.work? with
  | none => exact .idle hall
  | some work =>
      rw [hwork, Option.filter_some] at hidle
      cases work with
      | call call stage =>
          cases h with
          | @providing _ _ todo => cases todo <;> cases hwork
          | @withdrawing _ _ _ _ _ _ _ _ todo => cases todo <;> cases hwork
      | change change stage =>
          obtain rfl : stage = .fresh := by
            cases stage <;> first | rfl | cases hidle
          have hsame := hall change.event (h.event_mem hwork).2
          have halong : change.Along (p change.event) .fresh none
              (c.providers.get? change.event) := hsame ▸ .early (Nat.zero_le 2)
          exact .amid halong fun event hevent _ => hall event hevent

namespace Series

variable {concluded : List (Change × Except Failure Changed)} {brought : List (Change × Bool)}
  {current : List (Change × Bool)}

theorem ofBegin (hget : c.jobs.get? i = some (.provideAll handlers [] .fresh)) :
    c.Series i handlers c.providers.get? [] [] (.provideAll handlers [] .fresh) []
      c.providers.get? [] := by
  have hpursues : Pursues handlers [] (.provideAll handlers [] .fresh) :=
    .providing (List.nil_append handlers).symm rfl (by simp)
  refine ⟨hget, hpursues, .nil, abides_of_idle hpursues ?_ fun _ _ => rfl, rfl, rfl⟩
  cases handlers <;> rfl

/-- What others do is nothing to the job, as long as they leave its handlers alone. -/
theorem of_others (h : c.Series i handlers before concluded brought job past p current)
    (hkept : c'.jobs.get? i = c.jobs.get? i)
    (hsame : ∀ event ∈ handlers.map Prod.fst,
      c'.providers.get? event = c.providers.get? event) :
    c'.Series i handlers before concluded brought job past p current := by
  refine ⟨hkept.trans h.there, h.pursues, h.history, ?_, h.concluded, h.brought⟩
  have hmem : ∀ change stage, job.work? = some (.change change stage) →
      change.event ∈ handlers.map Prod.fst := fun _ _ hwork => (h.pursues.event_mem hwork).2
  have habides := h.abides
  generalize job.work? = work at habides hmem
  cases habides with
  | idle hall => exact .idle fun event hevent => (hsame event hevent).trans (hall event hevent)
  | @amid change stage request halong hothers =>
      refine .amid ?_ fun event hevent hne =>
        (hsame event hevent).trans (hothers event hevent hne)
      rw [hsame change.event (hmem change stage rfl)]
      exact halong

/-- The change that it is at. -/
theorem along (h : c.Series i handlers before concluded brought job past p current)
    (hwork : job.work? = some (.change change stage)) :
    ∃ request, change.Along (p change.event) stage request (c.providers.get? change.event) ∧
      (∀ event ∈ handlers.map Prod.fst, event ≠ change.event →
        c.providers.get? event = p event) ∧
      current = request.toList.map fun taken => (change, taken) := by
  have habides := h.abides
  rw [hwork] at habides
  cases habides with
  | amid halong hothers => exact ⟨_, halong, hothers, rfl⟩

/-- That change makes a step. -/
theorem moved (h : c.Series i handlers before concluded brought job past p current)
    (hwork : job.work? = some (.change change stage))
    (hstep : ChangeStep c i change stage c' stage') :
    ∃ current', (c'.setJob i (job.atStage stage')).Series i handlers before concluded
      (brought ++ ((stage.brings? stage').map fun taken => (change, taken)).toList)
      (job.atStage stage') past p current' := by
  obtain ⟨request, halong, hothers, rfl⟩ := h.along hwork
  obtain ⟨request', halong', hrequest⟩ :=
    halong.step (h.pursues.event_mem hwork).1 hstep
  have habides : (c'.setJob i (job.atStage stage')).Abides (handlers.map Prod.fst) p
      (job.atStage stage').work? (request'.toList.map fun taken => (change, taken)) := by
    rw [h.pursues.work?_atStage hwork]
    refine .amid halong' fun event hevent hne => ?_
    exact (hstep.get?_providers hne).trans (hothers event hevent hne)
  refine ⟨_, Dictionary.get?_put_self _ _ _, h.pursues.atStage stage', h.history, habides,
    h.concluded, ?_⟩
  rw [h.brought, hrequest, List.map_append, List.append_assoc]
  cases stage.brings? stage' <;> rfl

/-- That change has concluded. -/
theorem next (h : c.Series i handlers before concluded brought job past p current)
    {result : Except Failure Changed}
    (hwork : job.work? = some (.change change (.pruning result))) (hroll : c'.roll = c.roll) :
    ∃ past' p', (c'.setJob i (job.next result)).Series i handlers before
      (concluded ++ [(change, result)]) brought (job.next result) past' p' [] := by
  obtain ⟨request, halong, hothers, rfl⟩ := h.along hwork
  have hconcludes := halong.of_result (.inr rfl)
  have hpursues := h.pursues.next hwork result request
  refine ⟨_, _, Dictionary.get?_put_self _ _ _, hpursues, .concat h.history hconcludes, ?_, ?_, ?_⟩
  · refine abides_of_idle hpursues (h.pursues.begun?_next hwork result) fun event hevent => ?_
    rw [show (c'.setJob i (job.next result)).providers = c.providers from
      congrArg Roll.providers hroll]
    by_cases heq : event = change.event
    · rw [heq, Function.update_self]
    · rw [Function.update_of_ne heq]
      exact hothers event hevent heq
  · rw [h.concluded, List.map_append]
    rfl
  · rw [h.brought, List.flatMap_append, List.append_nil]
    simp [Made.asked]

/-- With a step of its first change it brings what the change brings. -/
theorem brings?_moved (h : c.Series i handlers before concluded brought job past p current)
    (hwork : job.work? = some (.change change stage))
    (hstep : ChangeStep c i change stage c' stage')
    (hmove : c.move (.advance i) = c'.setJob i (job.atStage stage')) :
    c.brings? i (.advance i) = (stage.brings? stage').map fun taken => (change, taken) := by
  have hget : (c.move (.advance i)).jobs.get? i = some (job.atStage stage') := by
    rw [hmove]
    exact Dictionary.get?_put_self _ _ _
  exact brings?_of_moved h.there hwork hget (h.pursues.work?_atStage hwork stage') hstep.ne_fresh

/-- Between two changes it brings nothing. -/
theorem brings?_next (h : c.Series i handlers before concluded brought job past p current)
    {result : Except Failure Changed} (hwork : job.work? = some (.change change (.pruning result)))
    (hmove : c.move (.advance i) = c'.setJob i (job.next result)) :
    c.brings? i (.advance i) = none := by
  apply brings?_of_idle
  rw [hmove, workAt_setJob, if_pos rfl]
  exact h.pursues.begun?_next hwork result

/-- The job's own step: it is over, or goes on. -/
theorem advance (h : c.Series i handlers before concluded brought job past p current) :
    (c.move (.advance i)).jobs.get? i = none ∨
      ∃ job' past' p' current', (c.move (.advance i)).Series i handlers before
        (concluded ++ (c.concludes? i (.advance i)).toList)
        (brought ++ (c.brings? i (.advance i)).toList) job' past' p' current' := by
  have hstep := seriesStep h.pursues h.there
  generalize hmove : c.move (.advance i) = client at hstep
  cases hstep with
  | stuck hstage =>
      rw [concludes?_eq_none h.there hstage, brings?_of_stuck hmove, Option.toList_none,
        Option.toList_none, List.append_nil, List.append_nil]
      exact .inr ⟨_, _, _, _, h.of_others rfl fun _ _ => rfl⟩
  | provided | withdrawn => exact .inl (Dictionary.get?_erase_self _ _)
  | @moved change stage stage' c₁ hwork hstep =>
      have hnone : c.concludes? i (.advance i) = none := by
        apply concludes?_eq_none h.there
        intro change' result hwork'
        rw [hwork] at hwork'
        cases hwork'
        cases hstep
      obtain ⟨current', hmoved⟩ := h.moved hwork hstep
      rw [hnone, h.brings?_moved hwork hstep hmove, Option.toList_none, List.append_nil]
      exact .inr ⟨_, _, _, _, hmoved⟩
  | @concluded change result hwork =>
      obtain ⟨past', p', hnext⟩ := h.next hwork (roll_setGatesOf c change _)
      rw [concludes?_of_pruning h.there hwork, h.brings?_next hwork hmove, Option.toList_none,
        List.append_nil]
      exact .inr ⟨_, _, _, _, hnext⟩

/-- A move of anybody. -/
theorem move (h : c.Series i handlers before concluded brought job past p current)
    (hnumbered : c.Numbered) (hunserved : ∀ k, c.serves k ≠ some i)
    (hsame : m = .advance i ∨ ∀ event ∈ handlers.map Prod.fst,
      (c.move m).providers.get? event = c.providers.get? event) :
    (c.move m).jobs.get? i = none ∨
      ∃ job' past' p' current', (c.move m).Series i handlers before
        (concluded ++ (c.concludes? i m).toList) (brought ++ (c.brings? i m).toList)
        job' past' p' current' := by
  by_cases hown : m = .advance i
  · subst hown
    exact h.advance
  · by_cases hdrop : m = .drop i
    · subst hdrop
      exact .inl (get?_dropJob c i)
    · have hkept : (c.move m).jobs.get? i = c.jobs.get? i := by
        apply (c.spares_move m).kept i (hnumbered i job h.there)
        intro htouched
        cases m with
        | advance k =>
            rcases List.mem_cons.mp htouched with rfl | hserved
            · exact hown rfl
            · exact hunserved k (Option.mem_toList.mp hserved)
        | drop k => exact hdrop (congrArg Move.drop (List.mem_singleton.mp htouched).symm)
        | _ => cases htouched
      rw [concludes?_of_others hown, brings?_of_others hown, Option.toList_none, Option.toList_none,
        List.append_nil, List.append_nil]
      exact .inr ⟨_, _, _, _, h.of_others hkept (hsame.resolve_left hown)⟩

/-- What it returns: success when there is nothing left to provide, and the refusal when there is
nothing left to take back. -/
theorem returns (h : c.Series i handlers before concluded brought job past p current)
    {outcome : Outcome} (hreturns : c.Returns i outcome) :
    (c.move (.advance i)).providers = c.providers ∧
      ((outcome = .ok .null ∧ ∃ made stage, job = .provideAll [] made stage) ∨
        ∃ reason stage, outcome = .error reason ∧ job = .withdraw reason [] stage) := by
  have hgrows : ∀ {client : Client}, client.finished = c.finished →
      client.finished ≠ c.finished ++ [(i, outcome)] := by
    intro client hsame heq
    rw [hsame] at heq
    exact absurd (congrArg List.length heq) (by simp)
  have hstep := seriesStep h.pursues h.there
  rw [Returns] at hreturns
  generalize c.move (.advance i) = client at hstep hreturns ⊢
  cases hstep with
  | stuck => exact absurd hreturns (hgrows rfl)
  | moved hwork hstep => exact absurd hreturns (hgrows hstep.acts.finished)
  | @concluded change result hwork =>
      exact absurd hreturns (hgrows (Acts.ofRearranges (.setGatesOf c change _)).finished)
  | provided hjob =>
      cases List.append_cancel_left hreturns
      exact ⟨rfl, .inl ⟨rfl, _, _, hjob⟩⟩
  | withdrawn hjob =>
      cases List.append_cancel_left hreturns
      exact ⟨rfl, .inr ⟨_, _, rfl, hjob⟩⟩

/-- What the job hands over is shown. -/
theorem brings_of_sent (h : c.Series i handlers before concluded brought job past p current)
    (hsent : (c.move (.advance i)).sent ≠ c.sent) :
    ∃ change, c.brings? i (.advance i) = some (change, true) := by
  have hstep := seriesStep h.pursues h.there
  generalize hmove : c.move (.advance i) = client at hstep
  rw [hmove] at hsent
  cases hstep with
  | stuck => exact absurd rfl hsent
  | provided | withdrawn => exact absurd rfl hsent
  | @concluded change =>
      exact absurd (Rearranges.setGatesOf c change _).sent hsent
  | @moved change stage stage' c₁ hwork hstep =>
      refine ⟨change, ?_⟩
      rw [h.brings?_moved hwork hstep hmove, hstep.brings_of_sent hsent, Option.map_some]

/-- The link refuses a request of the job only if it takes no frames. -/
theorem isUp_of_brings (h : c.Series i handlers before concluded brought job past p current)
    (hbrings : c.brings? i m = some (change, false)) : c.link.isUp = false := by
  by_cases hown : m = .advance i
  · subst hown
    have hstep := seriesStep h.pursues h.there
    generalize hmove : c.move (.advance i) = client at hstep
    cases hstep with
    | stuck =>
        rw [brings?_of_stuck hmove] at hbrings
        cases hbrings
    | provided | withdrawn =>
        rw [brings?_of_idle] at hbrings
        · cases hbrings
        · rw [hmove]
          exact congrArg (Option.bind · Job.begun?) (Dictionary.get?_erase_self _ _)
    | @concluded change' result hwork =>
        rw [h.brings?_next hwork hmove] at hbrings
        cases hbrings
    | @moved change' stage stage' c₁ hwork hstep =>
        rw [h.brings?_moved hwork hstep hmove] at hbrings
        obtain ⟨taken, hstages, heq⟩ := Option.map_eq_some_iff.mp hbrings
        cases heq
        cases hstep with
        | call hmoved => exact isUp_of_refused hmoved hstages
        | refer | join | enter | settle | fail | release => cases hstages
  · rw [brings?_of_others hown] at hbrings
    cases hbrings

/-- The job leaves the handlers of other events alone. -/
theorem get?_providers_of_other
    (h : c.Series i handlers before concluded brought job past p current) {event : String}
    (hother : event ∉ handlers.map Prod.fst) :
    (c.move (.advance i)).providers.get? event = c.providers.get? event := by
  have hstep := seriesStep h.pursues h.there
  generalize c.move (.advance i) = client at hstep
  cases hstep with
  | stuck | provided | withdrawn => rfl
  | moved hwork hstep =>
      apply hstep.get?_providers
      rintro rfl
      exact hother (h.pursues.event_mem hwork).2
  | @concluded change => exact get?_providers_of_roll (roll_setGatesOf c change _)

end Series

/-- Nobody but the job `i` changes who provides for these events. -/
def Undisturbed (c : Client) (i : JobId) (events : List String) (moves : List Move) : Prop :=
  c.Throughout (fun client m => m = .advance i ∨
    ∀ event ∈ events, (client.move m).providers.get? event = client.providers.get? event) moves

instance Undisturbed.decidable (c : Client) (i : JobId) (events : List String)
    (moves : List Move) : Decidable (c.Undisturbed i events moves) :=
  inferInstanceAs (Decidable (c.Throughout _ moves))

/-- In a run in which nobody disturbs it, the job goes on until it is over. -/
theorem series_run (hnumbered : c.Numbered) (hunserved : ∀ k, c.serves k ≠ some i)
    (hget : c.jobs.get? i = some (.provideAll handlers [] .fresh)) (moves : List Move)
    (hundisturbed : c.Undisturbed i (handlers.map Prod.fst) moves) :
    (∀ k, (c.run moves).serves k ≠ some i) ∧
      ((c.run moves).jobs.get? i = none ∨ ∃ job past p current,
        (c.run moves).Series i handlers c.providers.get? (c.shown (concludes? i) moves)
          (c.shown (brings? i) moves) job past p current) := by
  induction moves using List.reverseRecOn with
  | nil => exact ⟨hunserved, .inr ⟨_, _, _, _, .ofBegin hget⟩⟩
  | append_singleton moves m ih =>
      obtain ⟨hbefore, hlast, -⟩ := Throughout.append_iff.mp hundisturbed
      obtain ⟨hunserved', hprior⟩ := ih hbefore
      have hnumbered' := hnumbered.run moves
      rw [run_concat, shown_concat, shown_concat]
      rcases hprior with hgone | ⟨job, past, p, current, hseries⟩
      · refine ⟨Course.unserved_move hunserved' fun hmem => ?_, .inl ?_⟩
        · obtain ⟨-, id, method, stage, hget'⟩ := mem_starting hmem
          rw [hgone] at hget'
          cases hget'
        · have hi := Nat.lt_of_lt_of_le (hnumbered i _ hget) (inherits_run hnumbered moves).nextJob
          exact (inherits_move hnumbered' m).gone hi hgone
      · refine ⟨Course.unserved_move hunserved' fun hmem => ?_,
          hseries.move hnumbered' hunserved' hlast⟩
        obtain ⟨-, id, method, stage, hget'⟩ := mem_starting hmem
        have hpursues := hseries.pursues
        rw [hseries.there] at hget'
        cases hget'
        cases hpursues

end Client

end GatewayClient
