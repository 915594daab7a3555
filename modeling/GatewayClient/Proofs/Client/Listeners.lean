/-
Who listens, and when that changes.  The listeners of an event change only by a step of the job that
owns the event's gate, and there are none while the platform is called about them.
-/
import GatewayClient.Proofs.Client.Visits

namespace GatewayClient

namespace Client

/-- Whether the platform has to know of a change of who listens: there is no listener before, or
none but the one that goes. -/
def Switches (c : Client) : Change → Prop
  | .subscribe event _ => c.listenersOf event = []
  | .unsubscribe event id =>
    c.listenersOf event ≠ [] ∧ ∀ entry ∈ c.listenersOf event, entry.1 = id
  | .provide _ _ | .revoke _ => False

/-- The platform is called about the listeners of an event only while the event has none. -/
def Silent (c : Client) : Prop :=
  ∀ i change stage, c.workAt i = some (.change change (.calling stage)) →
    change.ofListeners = true → c.isSubscribed change.event = false

section events

variable {c c' : Client} {i : JobId} {change : Change} {stage stage' : ChangeStage}
  {event event' : String} {id : UInt64} {last : Bool}

theorem isSubscribed_congr (hevents : c'.events.get? event = c.events.get? event) :
    c'.isSubscribed event = c.isSubscribed event := by
  rw [isSubscribed, Dictionary.contains, hevents, isSubscribed, Dictionary.contains]

theorem listenersOf_eq_nil (hsilent : c.isSubscribed event = false) : c.listenersOf event = [] := by
  rw [isSubscribed, Dictionary.contains, Option.isSome_eq_false_iff, Option.isNone_iff_eq_none]
    at hsilent
  rw [listenersOf, hsilent]
  rfl

theorem Hands.events {table : Table} {sent : List Json} (h : c.Hands table sent c') :
    c'.events = c.events := by
  obtain ⟨link, ready, rfl⟩ := h
  rfl

theorem events_setGatesOf (c : Client) (change : Change) (gates : Gates) :
    (c.setGatesOf change gates).events = c.events := by
  cases change <;> rfl

theorem events_wakeOption (c : Client) (next : Option JobId) :
    (c.wakeOption next).events = c.events := by
  obtain ⟨ready, heq⟩ := c.wakeOption_eq next
  rw [heq]

theorem events_dropChange (c : Client) (i : JobId) (change : Change) (stage : ChangeStage) :
    (c.dropChange i change stage).events = c.events := by
  have hleave : ∀ client : Client, (client.leaveGate i change).events = client.events :=
    fun client => (events_wakeOption _ _).trans (events_setGatesOf client change _)
  cases stage with
  | fresh => rfl
  | referring => exact (events_wakeOption _ _).trans (events_setGatesOf c change _)
  | atGate => exact (events_wakeOption _ _).trans (events_setGatesOf c change _)
  | calling stage =>
      obtain ⟨table, hhands⟩ := c.hands_dropCall i stage
      exact (hleave _).trans hhands.events
  | releasing result => exact hleave c
  | pruning result => exact events_setGatesOf c change _

theorem get?_events_attach (c : Client) (listener : Listener) (hne : event' ≠ event) :
    (c.attach event listener).1.events.get? event' = c.events.get? event' :=
  Dictionary.get?_put_of_ne _ _ hne

/-- A change that begins to call the platform about listeners has found that the platform has to
know, and leaves no listeners. -/
theorem switches_of_enterChange (hlisteners : change.ofListeners = true)
    (hcalling : (c.enterChange change).2 = .calling .fresh) :
    c.Switches change ∧ (c.enterChange change).1.isSubscribed change.event = false := by
  cases change with
  | subscribe event listener =>
      rw [enterChange] at hcalling ⊢
      split at hcalling
      · cases hcalling
      · next hnone =>
          rw [if_neg hnone]
          have hsilent := Bool.eq_false_iff.mpr hnone
          exact ⟨listenersOf_eq_nil hsilent, hsilent⟩
  | unsubscribe event id =>
      cases detachCase c event id with
      | unknown _ henter | others _ henter =>
          rw [henter] at hcalling
          cases hcalling
      | last hkept hsome henter =>
          refine ⟨⟨hsome, fun entry hentry => ?_⟩, ?_⟩
          · simpa using List.filter_eq_nil_iff.mp hkept entry hentry
          · rw [henter, isSubscribed, Dictionary.contains]
            exact congrArg Option.isSome (Dictionary.get?_erase_self _ _)
  | provide event handler => cases hlisteners
  | revoke event => cases hlisteners

theorem get?_events_enterChange (c : Client) (change : Change) (event : String) :
    (c.enterChange change).1.events.get? event = c.events.get? event ∨
      change.ofListeners = true ∧ change.event = event := by
  cases change with
  | subscribe event' listener =>
      by_cases heq : event' = event
      · exact Or.inr ⟨rfl, heq⟩
      · rw [enterChange]
        split
        · exact Or.inl (get?_events_attach c listener (Ne.symm heq))
        · exact Or.inl rfl
  | unsubscribe event' id =>
      by_cases heq : event' = event
      · exact Or.inr ⟨rfl, heq⟩
      · left
        cases detachCase c event' id with
        | unknown _ henter => rw [henter]
        | last _ _ henter =>
            rw [henter]
            exact Dictionary.get?_erase_of_ne _ (Ne.symm heq)
        | others _ henter =>
            rw [henter]
            exact Dictionary.get?_put_of_ne _ _ (Ne.symm heq)
  | provide event' handler =>
      rw [enterChange]
      split <;> exact Or.inl rfl
  | revoke event' =>
      rw [enterChange]
      split <;> exact Or.inl rfl

theorem get?_events_settleChange (c : Client) (change : Change) (event : String) :
    (c.settleChange change).1.events.get? event = c.events.get? event ∨
      change.ofListeners = true ∧ change.event = event := by
  cases change with
  | subscribe event' listener =>
      by_cases heq : event' = event
      · exact Or.inr ⟨rfl, heq⟩
      · exact Or.inl (get?_events_attach c listener (Ne.symm heq))
  | unsubscribe | provide | revoke => exact Or.inl rfl

/-- A step of a change leaves the listeners of an event alone, or the change is one of them and at
its gate or past it. -/
theorem ChangeStep.get?_events (h : ChangeStep c i change stage c' stage') (event : String) :
    c'.events.get? event = c.events.get? event ∨
      (change.ofListeners = true ∧ change.event = event) ∧
        ((stage = .atGate ∧ (c.gatesOf change).owns i = true) ∨ stage.phase? = some .inside) := by
  cases h with
  | refer => exact Or.inl (by rw [events_setGatesOf])
  | join => exact Or.inl (by rw [events_setGatesOf])
  | enter howns =>
      rcases get?_events_enterChange c change event with hsame | hown
      · exact Or.inl hsame
      · exact Or.inr ⟨hown, Or.inl ⟨rfl, howns⟩⟩
  | call hmoved =>
      obtain ⟨table, sent, -, hhands⟩ := stepCall_moved hmoved
      exact Or.inl (by rw [hhands.events])
  | @settle stage client value hover =>
      obtain ⟨table, hhands⟩ := hands_of_over hover
      rcases get?_events_settleChange client change event with hsame | hown
      · exact Or.inl (by rw [hsame, hhands.events])
      · exact Or.inr ⟨hown, Or.inr rfl⟩
  | fail hover =>
      obtain ⟨table, hhands⟩ := hands_of_over hover
      exact Or.inl (by rw [hhands.events])
  | release => exact Or.inl (by rw [events_wakeOption, events_setGatesOf])

/-- A change that is in its call after a step was in it before, or has begun it with this step. -/
theorem ChangeStep.of_calling {stage' : CallStage}
    (h : ChangeStep c i change stage c' (.calling stage')) :
    (c'.events = c.events ∧ ∃ stage₁, stage = .calling stage₁) ∨
      stage = .atGate ∧ (c.gatesOf change).owns i = true ∧
        (c.enterChange change).2 = .calling .fresh ∧ c' = (c.enterChange change).1 := by
  generalize hstage : ChangeStage.calling stage' = reached at h
  cases h with
  | enter howns =>
      rcases c.enterChange_stage change with hcalling | ⟨changed, hreleasing⟩
      · exact Or.inr ⟨rfl, howns, hcalling, rfl⟩
      · rw [hreleasing] at hstage
        cases hstage
  | call hmoved =>
      obtain ⟨table, sent, -, hhands⟩ := stepCall_moved hmoved
      exact Or.inl ⟨hhands.events, _, rfl⟩
  | refer | join | settle | fail | release => cases hstage

end events

variable {c : Client} {i : JobId} {change : Change}

theorem workAt_of_work? {job : Job} {work : Work} (hjob : c.jobs.get? i = some job)
    (hwork : job.work? = some work) (hbegun : work.isBegun = true) : c.workAt i = some work :=
  (workAt_of_get? hjob).trans (begun?_of_work? hwork hbegun)

/-- A move leaves the listeners of an event alone, or is made by the owner of the event's gate. -/
theorem get?_events_move (hnumbered : c.Numbered) (horderly : c.GatesOrderly) (m : Move)
    (event : String) :
    (c.move m).events.get? event = c.events.get? event ∨
      ∃ i phase, m = .advance i ∧ c.visits true i = some (event, phase) ∧
        (c.gatesFor true).owns i = true := by
  cases moveCase hnumbered m with
  | quiet hreply hquiet => exact Or.inl (by rw [hquiet.events])
  | reply hreply hquiet => exact Or.inl (by rw [hquiet.events])
  | sweep hm hjob hquiet => exact Or.inl (by rw [hquiet.events])
  | @turn i job work work' c₁ hm hjob hwork hturn hleaves =>
      have hevents := hleaves.keeps.events
      cases hturn with
      | call hmoved =>
          obtain ⟨table, sent, -, hhands⟩ := stepCall_moved hmoved
          exact Or.inl (by rw [hevents, hhands.events])
      | callOver hover =>
          obtain ⟨table, hhands⟩ := hands_of_over hover
          exact Or.inl (by rw [hevents, hhands.events])
      | @change change stage stage' _ hmoved =>
          rcases (stepChange_moved hmoved).get?_events event with
            hsame | ⟨⟨hlisteners, rfl⟩, hinside⟩
          · exact Or.inl (by rw [hevents, hsame])
          · have hvisits := visits_of_work? change.ofListeners hjob hwork
            rw [Work.visit?, if_pos rfl, hlisteners] at hvisits
            rw [gatesOf_eq, hlisteners] at hinside
            rcases hinside with ⟨rfl, howns⟩ | hphase
            · exact Or.inr ⟨i, _, hm, hvisits, howns⟩
            · rw [hphase] at hvisits
              exact Or.inr ⟨i, _, hm, hvisits, (horderly true).owns_of_inside hvisits⟩
      | changeOver hover =>
          obtain ⟨-, rfl⟩ := stepChange_over hover
          exact Or.inl (by rw [hevents, events_setGatesOf])
  | @drop i job work hm hjob hwork hleaves =>
      have hevents := hleaves.keeps.events
      cases work with
      | call call stage =>
          obtain ⟨table, hhands⟩ := c.hands_dropCall i stage
          exact Or.inl (by rw [hevents, dropWork, hhands.events])
      | change change stage => exact Or.inl (by rw [hevents, dropWork, events_dropChange])

/-- A change that is in its call after a move was in it before, or has begun it with this move. -/
theorem calling_of_move (hnumbered : c.Numbered) (m : Move) {stage' : CallStage}
    (hafter : (c.move m).workAt i = some (.change change (.calling stage'))) :
    (((c.move m).events = c.events ∨ m ≠ .advance i) ∧
        ∃ stage, c.workAt i = some (.change change (.calling stage))) ∨
      m = .advance i ∧ c.workAt i = some (.change change .atGate) ∧
        (c.gatesOf change).owns i = true ∧ (c.enterChange change).2 = .calling .fresh ∧
        (c.move m).events = (c.enterChange change).1.events := by
  cases moveCase hnumbered m with
  | quiet hreply hquiet =>
      exact Or.inl ⟨Or.inl hquiet.events, stage', (hquiet.work hnumbered i) ▸ hafter⟩
  | reply hreply hquiet =>
      exact Or.inl ⟨Or.inl hquiet.events, stage', (hquiet.work hnumbered i) ▸ hafter⟩
  | sweep hm hjob hquiet =>
      exact Or.inl ⟨Or.inl hquiet.events, stage', (hquiet.work hnumbered i) ▸ hafter⟩
  | @turn j job work work' c₁ hm hjob hwork hturn hleaves =>
      rw [hleaves.work] at hafter
      split at hafter
      · next heq =>
          subst heq
          have hevents := hleaves.keeps.events
          cases hafter
          cases hturn with
          | change hmoved =>
              rcases (stepChange_moved hmoved).of_calling with
                ⟨hsame, stage, rfl⟩ | ⟨rfl, howns, hcalling, rfl⟩
              · exact Or.inl ⟨Or.inl (hevents.trans hsame), stage, workAt_of_work? hjob hwork rfl⟩
              · exact Or.inr ⟨hm, workAt_of_work? hjob hwork rfl, howns, hcalling, hevents⟩
      · next hne =>
          refine Or.inl ⟨Or.inr ?_, stage', hafter⟩
          rw [hm]
          exact fun heq => hne (Move.advance.inj heq).symm
  | drop hm hjob hwork hleaves =>
      rw [hleaves.work] at hafter
      split at hafter
      · cases hafter
      · exact Or.inl ⟨Or.inr (hm ▸ Move.noConfusion), stage', hafter⟩

/-- A change in its call about listeners is inside of the event's gate. -/
theorem visits_of_calling {stage : CallStage} (hlisteners : change.ofListeners = true)
    (hwork : c.workAt i = some (.change change (.calling stage))) :
    c.visits true i = some (change.event, .inside) :=
  hlisteners ▸ visits_of_workAt hwork

namespace Silent

theorem ofSettings (settings : Settings) (link : Link) : (ofSettings settings link).Silent := by
  intro i change stage hwork
  cases hwork

theorem move (h : c.Silent) (hnumbered : c.Numbered) (horderly : c.GatesOrderly) (m : Move) :
    (c.move m).Silent := by
  intro i change stage' hafter hlisteners
  rcases calling_of_move hnumbered m hafter with
    ⟨hown, stage, hbefore⟩ | ⟨hm, -, -, hcalling, hevents⟩
  · have hsilent := h i change stage hbefore hlisteners
    suffices hsame : (c.move m).events.get? change.event = c.events.get? change.event from
      (isSubscribed_congr hsame).trans hsilent
    rcases hown with hsame | hother
    · rw [hsame]
    · rcases get?_events_move hnumbered horderly m change.event with
        hsame | ⟨j, phase, hm, hvisit, howns⟩
      · exact hsame
      · -- The owner of the gate is the job that is in its call, and has not moved.
        have hinside := visits_of_calling hlisteners hbefore
        have heq := (horderly true).eq_of_owns hinside hvisit
          ((horderly true).owns_of_inside hinside) howns
        exact absurd (heq ▸ hm) hother
  · exact (isSubscribed_congr (by rw [hevents])).trans
      (switches_of_enterChange hlisteners hcalling).2

theorem run (h : c.Silent) (hnumbered : c.Numbered) (horderly : c.GatesOrderly)
    (moves : List Move) : (c.run moves).Silent := by
  induction moves generalizing c with
  | nil => exact h
  | cons m rest ih =>
      exact ih (h.move hnumbered horderly m) (hnumbered.move m) (horderly.move hnumbered m)

end Silent

end Client

end GatewayClient
