/-
The changes under way as visitors of their gates.  Changes of what is listened to and changes of
what is provided have gates of their own; every move keeps both in order.
-/
import GatewayClient.Proofs.Client.Move
import GatewayClient.Proofs.Gate

namespace GatewayClient

namespace Change

/-- Whether a change is one of what the client listens to, and not of what it provides. -/
def ofListeners : Change → Bool
  | subscribe _ _ | unsubscribe _ _ => true
  | provide _ _ | revoke _ => false

end Change

namespace ChangeStage

/-- Where a change is on its way through its gate. -/
def phase? : ChangeStage → Option VisitPhase
  | .fresh => none
  | .referring => some .referring
  | .atGate => some .waiting
  | .calling _ | .releasing _ => some .inside
  | .pruning _ => some .leaving

end ChangeStage

namespace Work

/-- The visit that a piece of work pays to a gate for listeners, or to one for providers. -/
def visit? (listeners : Bool) : Work → Option (String × VisitPhase)
  | call _ _ => none
  | change c stage =>
    if c.ofListeners = listeners then stage.phase?.map fun phase => (c.event, phase) else none

end Work

namespace Client

/-- The visits that the jobs pay to the gates for listeners, or to those for providers. -/
def visits (c : Client) (listeners : Bool) (i : JobId) : Option (String × VisitPhase) :=
  (c.workAt i).bind (Work.visit? listeners)

/-- The gates for listeners, or those for providers. -/
def gatesFor (c : Client) (listeners : Bool) : Gates :=
  if listeners then c.eventGates else c.providerGates

theorem visits_of_workAt {c : Client} {i : JobId} {change : Change} {stage : ChangeStage}
    (hwork : c.workAt i = some (.change change stage)) :
    c.visits change.ofListeners i = stage.phase?.map fun phase => (change.event, phase) := by
  rw [visits, hwork, Option.bind_some, Work.visit?, if_pos rfl]

theorem visits_of_work? {c : Client} {i : JobId} {job : Job} {work : Work} (listeners : Bool)
    (hjob : c.jobs.get? i = some job) (hwork : job.work? = some work) :
    c.visits listeners i = work.visit? listeners := by
  rw [visits, workAt_of_get? hjob, Job.begun?, hwork, Option.filter_some]
  split
  · rfl
  · next hbegun =>
      cases work with
      | call call stage => rfl
      | change change stage =>
          cases stage with
          | fresh =>
              rw [Option.bind_none, Work.visit?]
              split <;> rfl
          | referring | atGate | calling | releasing | pruning => exact absurd rfl hbegun

theorem visits_congr {c c' : Client} {i : JobId} (listeners : Bool)
    (hwork : c'.workAt i = c.workAt i) : c'.visits listeners i = c.visits listeners i := by
  rw [visits, hwork, visits]

theorem Leaves.visits {c c₁ c' : Client} {i : JobId} {work : Option Work}
    (h : Leaves c c₁ c' i work) (listeners : Bool) :
    c'.visits listeners =
      Function.update (c.visits listeners) i (work.bind (Work.visit? listeners)) := by
  funext j
  by_cases hj : j = i
  · rw [hj, Function.update_self, Client.visits, h.work, if_pos rfl]
  · rw [Function.update_of_ne hj, Client.visits, h.work, if_neg hj, Client.visits]

theorem Keeps.gatesFor {c c' : Client} (h : Keeps c c') (listeners : Bool) :
    c'.gatesFor listeners = c.gatesFor listeners := by
  rw [Client.gatesFor, h.eventGates, h.providerGates, Client.gatesFor]

theorem gatesOf_eq (c : Client) (change : Change) :
    c.gatesOf change = c.gatesFor change.ofListeners := by
  cases change <;> rfl

theorem gatesFor_setGatesOf (c : Client) (change : Change) (gates : Gates) (listeners : Bool) :
    (c.setGatesOf change gates).gatesFor listeners =
      if change.ofListeners = listeners then gates else c.gatesFor listeners := by
  cases change <;> cases listeners <;> rfl

theorem gatesFor_wakeOption (c : Client) (next : Option JobId) (listeners : Bool) :
    (c.wakeOption next).gatesFor listeners = c.gatesFor listeners := by
  obtain ⟨ready, heq⟩ := c.wakeOption_eq next
  rw [heq]
  rfl

theorem Hands.gatesFor {c c' : Client} {table : Table} {sent : List Json}
    (h : c.Hands table sent c') (listeners : Bool) :
    c'.gatesFor listeners = c.gatesFor listeners := by
  obtain ⟨link, ready, rfl⟩ := h
  rfl

theorem gatesFor_enterChange (c : Client) (change : Change) (listeners : Bool) :
    (c.enterChange change).1.gatesFor listeners = c.gatesFor listeners := by
  obtain ⟨events, nextListener, providers, heq⟩ := c.enterChange_eq change
  rw [heq]
  rfl

theorem gatesFor_settleChange (c : Client) (change : Change) (listeners : Bool) :
    (c.settleChange change).1.gatesFor listeners = c.gatesFor listeners := by
  cases change <;> rfl

theorem gatesFor_stepCall {c c' : Client} {i : JobId} {call : Call} {stage stage' : CallStage}
    (hmoved : c.stepCall i call stage = .moved c' stage') (listeners : Bool) :
    c'.gatesFor listeners = c.gatesFor listeners := by
  obtain ⟨table, sent, -, hhands⟩ := stepCall_moved hmoved
  exact hhands.gatesFor listeners

theorem gatesFor_stepCall_over {c c' : Client} {i : JobId} {call : Call} {stage : CallStage}
    {outcome : Outcome} (hover : c.stepCall i call stage = .over c' outcome) (listeners : Bool) :
    c'.gatesFor listeners = c.gatesFor listeners := by
  obtain ⟨table, hhands⟩ := hands_of_over hover
  exact hhands.gatesFor listeners

theorem gatesFor_dropCall (c : Client) (i : JobId) (stage : CallStage) (listeners : Bool) :
    (c.dropCall i stage).gatesFor listeners = c.gatesFor listeners := by
  obtain ⟨table, hhands⟩ := c.hands_dropCall i stage
  exact hhands.gatesFor listeners

/-- All gates are in order, and their visitors are the jobs whose changes are under way. -/
def GatesOrderly (c : Client) : Prop :=
  ∀ listeners, (c.gatesFor listeners).Orderly (c.visits listeners)

namespace GatesOrderly

variable {c c₁ c' : Client} {i : JobId} {job : Job} {change : Change} {stage stage' : ChangeStage}
  {work : Option Work}

theorem ofSettings (settings : Settings) (link : Link) :
    (ofSettings settings link).GatesOrderly := by
  intro listeners
  cases listeners <;> exact .new

/-- Gates and visits that are as they were. -/
theorem of_same (h : c.GatesOrderly) (hgates : ∀ listeners,
    c'.gatesFor listeners = c.gatesFor listeners)
    (hvisits : ∀ listeners i, c'.visits listeners i = c.visits listeners i) :
    c'.GatesOrderly := by
  intro listeners
  rw [hgates, funext (hvisits listeners)]
  exact h listeners

/-- A job that pays no visit before or after leaves the gates in order. -/
theorem of_leaves_same (h : c.GatesOrderly) (hleaves : Leaves c c₁ c' i work)
    (hgates : ∀ listeners, c₁.gatesFor listeners = c.gatesFor listeners)
    (hvisit : ∀ listeners, work.bind (Work.visit? listeners) = c.visits listeners i) :
    c'.GatesOrderly := by
  intro listeners
  rw [hleaves.keeps.gatesFor, hgates, hleaves.visits, hvisit, Function.update_eq_self]
  exact h listeners

/-- A change that leaves the gates of its own kind in order leaves those of the other alone. -/
theorem of_leaves (h : c.GatesOrderly) (hjob : c.jobs.get? i = some job)
    (hwork : job.work? = some (.change change stage)) (hleaves : Leaves c c₁ c' i work)
    (gates : Gates) (visit : Option (String × VisitPhase))
    (hgates : ∀ listeners, c₁.gatesFor listeners =
      if change.ofListeners = listeners then gates else c.gatesFor listeners)
    (hvisit : ∀ listeners, work.bind (Work.visit? listeners) =
      if change.ofListeners = listeners then visit else none)
    (hown : c.visits change.ofListeners i = (stage.phase?.map fun phase => (change.event, phase)) →
      gates.Orderly (Function.update (c.visits change.ofListeners) i visit)) :
    c'.GatesOrderly := by
  intro listeners
  have hbefore := visits_of_work? listeners hjob hwork
  rw [Work.visit?] at hbefore
  rw [hleaves.keeps.gatesFor, hgates, hleaves.visits, hvisit]
  by_cases hside : change.ofListeners = listeners
  · subst hside
    rw [if_pos rfl] at hbefore ⊢
    rw [if_pos rfl]
    exact hown hbefore
  · rw [if_neg hside] at hbefore ⊢
    rw [if_neg hside, ← hbefore, Function.update_eq_self]
    exact h listeners

theorem of_step (h : c.GatesOrderly) (hjob : c.jobs.get? i = some job)
    (hwork : job.work? = some (.change change stage))
    (hstep : ChangeStep c i change stage c₁ stage')
    (hleaves : Leaves c c₁ c' i (some (.change change stage'))) : c'.GatesOrderly := by
  have hown := h change.ofListeners
  cases hstep with
  | refer =>
      refine h.of_leaves hjob hwork hleaves _ _ (gatesFor_setGatesOf c change _) (fun _ => rfl) ?_
      intro hbefore
      rw [gatesOf_eq]
      exact hown.refer hbefore change.event
  | join =>
      refine h.of_leaves hjob hwork hleaves _ _ (gatesFor_setGatesOf c change _) (fun _ => rfl) ?_
      intro hbefore
      rw [gatesOf_eq]
      exact hown.join hbefore
  | enter howns =>
      refine h.of_leaves hjob hwork hleaves (c.gatesFor change.ofListeners)
        (some (change.event, .inside)) ?_ ?_ ?_
      · intro listeners
        rw [gatesFor_enterChange]
        split
        · next hside => rw [hside]
        · rfl
      · intro listeners
        rw [Option.bind_some, Work.visit?]
        have hinside : (c.enterChange change).2.phase? = some .inside := by
          rcases c.enterChange_stage change with hstage | ⟨changed, hstage⟩
          · rw [hstage]
            rfl
          · rw [hstage]
            rfl
        rw [hinside]
        rfl
      · intro hbefore
        rw [gatesOf_eq] at howns
        exact hown.enter hbefore howns
  | call hmoved =>
      apply h.of_leaves_same hleaves (gatesFor_stepCall hmoved)
      intro listeners
      exact (visits_of_work? listeners hjob hwork).symm
  | settle hover =>
      refine h.of_leaves_same hleaves (fun listeners => ?_) fun listeners => ?_
      · rw [gatesFor_settleChange, gatesFor_stepCall_over hover]
      · exact (visits_of_work? listeners hjob hwork).symm
  | fail hover =>
      apply h.of_leaves_same hleaves (gatesFor_stepCall_over hover)
      intro listeners
      exact (visits_of_work? listeners hjob hwork).symm
  | release =>
      refine h.of_leaves hjob hwork hleaves ((c.gatesOf change).release i).1 _ ?_ (fun _ => rfl) ?_
      · intro listeners
        rw [gatesFor_wakeOption, gatesFor_setGatesOf]
      · intro hbefore
        rw [gatesOf_eq]
        exact hown.release hbefore

theorem of_drop (h : c.GatesOrderly) (hjob : c.jobs.get? i = some job)
    (hwork : job.work? = some (.change change stage))
    (hleaves : Leaves c (c.dropChange i change stage) c' i none) : c'.GatesOrderly := by
  have hown := h change.ofListeners
  have hvisit : ∀ listeners, (none : Option Work).bind (Work.visit? listeners) =
      if change.ofListeners = listeners then none else none := by simp
  cases stage with
  | fresh =>
      apply h.of_leaves_same hleaves (fun _ => rfl)
      intro listeners
      rw [visits_of_work? listeners hjob hwork, Work.visit?]
      split <;> rfl
  | referring =>
      refine h.of_leaves hjob hwork hleaves ((c.gatesOf change).giveUp i).1 none
        (fun listeners => ?_) hvisit ?_
      · exact (gatesFor_wakeOption _ _ listeners).trans (gatesFor_setGatesOf c change _ listeners)
      · intro hbefore
        rw [gatesOf_eq]
        exact hown.giveUp hbefore
  | atGate =>
      refine h.of_leaves hjob hwork hleaves ((c.gatesOf change).giveUp i).1 none
        (fun listeners => ?_) hvisit ?_
      · exact (gatesFor_wakeOption _ _ listeners).trans (gatesFor_setGatesOf c change _ listeners)
      · intro hbefore
        rw [gatesOf_eq]
        exact hown.giveUp hbefore
  | calling stage =>
      refine h.of_leaves hjob hwork hleaves ((c.gatesOf change).leave change.event i).1 none
        (fun listeners => ?_) hvisit ?_
      · rw [dropChange, leaveGate]
        dsimp only
        rw [gatesFor_wakeOption, gatesFor_setGatesOf, gatesFor_dropCall, gatesOf_eq, gatesOf_eq,
          gatesFor_dropCall]
      · intro hbefore
        rw [gatesOf_eq]
        exact hown.leave hbefore
  | releasing result =>
      refine h.of_leaves hjob hwork hleaves ((c.gatesOf change).leave change.event i).1 none
        (fun listeners => ?_) hvisit ?_
      · exact (gatesFor_wakeOption _ _ listeners).trans (gatesFor_setGatesOf c change _ listeners)
      · intro hbefore
        rw [gatesOf_eq]
        exact hown.leave hbefore
  | pruning result =>
      apply h.of_leaves hjob hwork hleaves _ none (gatesFor_setGatesOf c change _) hvisit
      intro hbefore
      rw [gatesOf_eq]
      exact hown.prune hbefore

/-- Every move keeps the gates in order. -/
theorem move (h : c.GatesOrderly) (hnumbered : c.Numbered) (m : Move) :
    (c.move m).GatesOrderly := by
  cases moveCase hnumbered m with
  | quiet hreply hquiet =>
      exact h.of_same hquiet.gatesFor fun listeners i =>
        visits_congr listeners (hquiet.work hnumbered i)
  | reply hreply hquiet =>
      exact h.of_same hquiet.gatesFor fun listeners i =>
        visits_congr listeners (hquiet.work hnumbered i)
  | sweep hm hjob hquiet =>
      exact h.of_same hquiet.gatesFor fun listeners i =>
        visits_congr listeners (hquiet.work hnumbered i)
  | turn hm hjob hwork hturn hleaves =>
      cases hturn with
      | call hmoved =>
          exact h.of_leaves_same hleaves (gatesFor_stepCall hmoved) fun listeners =>
            (visits_of_work? listeners hjob hwork).symm
      | callOver hover =>
          exact h.of_leaves_same hleaves (gatesFor_stepCall_over hover) fun listeners =>
            (visits_of_work? listeners hjob hwork).symm
      | change hmoved => exact h.of_step hjob hwork (stepChange_moved hmoved) hleaves
      | @changeOver change stage result c₁ hover =>
          obtain ⟨rfl, rfl⟩ := stepChange_over hover
          refine h.of_leaves hjob hwork hleaves _ none (gatesFor_setGatesOf c change _)
            (by simp) ?_
          intro hbefore
          rw [gatesOf_eq]
          exact (h change.ofListeners).prune hbefore
  | @drop i job work hm hjob hwork hleaves =>
      cases work with
      | call call stage =>
          exact h.of_leaves_same hleaves (gatesFor_dropCall c i stage) fun listeners =>
            (visits_of_work? listeners hjob hwork).symm
      | change change stage => exact h.of_drop hjob hwork hleaves

theorem run (h : c.GatesOrderly) (hnumbered : c.Numbered) (moves : List Move) :
    (c.run moves).GatesOrderly := by
  induction moves generalizing c with
  | nil => exact h
  | cons m rest ih => exact ih (h.move hnumbered m) (hnumbered.move m)

end GatesOrderly

end Client

end GatewayClient
