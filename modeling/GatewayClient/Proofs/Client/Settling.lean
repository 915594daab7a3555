/-
What changes come to.  A move may let a change through its gate, which is where listeners and
handlers go, and it may bring one to success, which is where they come; apart from that, who listens
and who provides stay as they are.
-/
import GatewayClient.Proofs.Client.Listeners

namespace GatewayClient

namespace Work

/-- The change that a piece of work has brought to success, and what it has done. -/
def settled? : Work → Option (Change × Changed)
  | change c (.releasing (.ok changed)) | change c (.pruning (.ok changed)) => some (c, changed)
  | _ => none

/-- What a change has come to success with is that change. -/
theorem eq_of_settled? {c c' : Change} {stage : ChangeStage} {changed : Changed}
    (h : (change c stage).settled? = some (c', changed)) : c' = c := by
  cases stage with
  | releasing result | pruning result =>
      cases result <;> cases h
      rfl
  | fresh | referring | atGate | calling => cases h

end Work

/-- Who listens and who provides. -/
structure Roll where
  events : Dictionary String (List (UInt64 × Listener))
  nextListener : UInt64
  providers : Dictionary String Handler

namespace Client

/-- Who listens to a client and who provides for it. -/
def roll (c : Client) : Roll :=
  ⟨c.events, c.nextListener, c.providers⟩

/-- The change that a job has brought to success and has yet to return from. -/
def settledAt (c : Client) (i : JobId) : Option (Change × Changed) :=
  (c.workAt i).bind Work.settled?

/-- The change that a move lets through its gate. -/
def passes? (c : Client) : Move → Option Change
  | .advance i =>
    match c.workAt i with
    | some (.change change .atGate) => if (c.gatesOf change).owns i then some change else none
    | _ => none
  | _ => none

/-- The change that a move brings to success, and what it has done. -/
def settles? (c : Client) : Move → Option (Change × Changed)
  | .advance i =>
    match c.settledAt i with
    | none => (c.move (.advance i)).settledAt i
    | some _ => none
  | _ => none

/-- The subscription that a move brings to success: the event, and the listener with its id. -/
def enrols? (c : Client) (m : Move) : Option (String × UInt64 × Listener) :=
  match c.settles? m with
  | some (.subscribe event listener, .attached id) => some (event, id, listener)
  | _ => none

/-- The listener that comes to an event with a move. -/
def comes? (c : Client) (event : String) (m : Move) : Option (UInt64 × Listener) :=
  match c.enrols? m with
  | some (event', entry) => if event' = event then some entry else none
  | none => none

/-- The id of a listener that has to go from an event with a move. -/
def goes? (c : Client) (event : String) (m : Move) : Option UInt64 :=
  match c.passes? m with
  | some (.unsubscribe event' id) => if event' = event then some id else none
  | _ => none

section roll

variable {c c' : Client} {i : JobId} {change : Change} {event event' : String} {id : UInt64}
  {m : Move}

theorem listenersOf_of_roll (h : c'.roll = c.roll) (event : String) :
    c'.listenersOf event = c.listenersOf event := by
  rw [listenersOf, show c'.events = c.events from congrArg Roll.events h, listenersOf]

theorem Keeps.roll (h : Keeps c c') : c'.roll = c.roll := by
  rw [Client.roll, h.events, h.nextListener, h.providers, Client.roll]

theorem Hands.roll {table : Table} {sent : List Json} (h : c.Hands table sent c') :
    c'.roll = c.roll := by
  obtain ⟨link, ready, rfl⟩ := h
  rfl

theorem roll_setGatesOf (c : Client) (change : Change) (gates : Gates) :
    (c.setGatesOf change gates).roll = c.roll := by
  cases change <;> rfl

theorem roll_wakeOption (c : Client) (next : Option JobId) :
    (c.wakeOption next).roll = c.roll := by
  obtain ⟨ready, heq⟩ := c.wakeOption_eq next
  rw [heq]
  rfl

theorem roll_leaveGate (c : Client) (i : JobId) (change : Change) :
    (c.leaveGate i change).roll = c.roll :=
  (roll_wakeOption _ _).trans (roll_setGatesOf c change _)

theorem roll_dropWork (c : Client) (i : JobId) (work : Work) :
    (c.dropWork i work).roll = c.roll := by
  have hcall : ∀ stage, (c.dropCall i stage).roll = c.roll := by
    intro stage
    obtain ⟨table, hhands⟩ := c.hands_dropCall i stage
    exact hhands.roll
  cases work with
  | call call stage => exact hcall stage
  | change change stage =>
      cases stage with
      | fresh => rfl
      | referring | atGate => exact (roll_wakeOption _ _).trans (roll_setGatesOf c change _)
      | calling stage => exact (roll_leaveGate _ i change).trans (hcall stage)
      | releasing => exact roll_leaveGate c i change
      | pruning => exact roll_setGatesOf c change _

theorem passes?_eq_some (h : c.passes? m = some change) :
    ∃ i, m = .advance i ∧ c.workAt i = some (.change change .atGate) ∧
      (c.gatesOf change).owns i = true := by
  cases m with
  | advance i =>
      rw [passes?] at h
      split at h
      · next hwork =>
          split at h
          · next howns =>
              cases h
              exact ⟨i, rfl, hwork, howns⟩
          · cases h
      · cases h
  | _ => cases h

theorem passes?_of_owns (hwork : c.workAt i = some (.change change .atGate))
    (howns : (c.gatesOf change).owns i = true) : c.passes? (.advance i) = some change := by
  simp [passes?, hwork, howns]

/-- A change that can go on makes its step when its job is advanced. -/
theorem move_of_moved {c₁ : Client} {stage stage' : ChangeStage}
    (hwork : c.workAt i = some (.change change stage))
    (hmoved : c.stepChange i change stage = .moved c₁ stage') :
    ∃ job, c.move (.advance i) = c₁.setJob i job ∧ job.work? = some (.change change stage') := by
  obtain ⟨job, hget, hbegun⟩ := Option.bind_eq_some_iff.mp hwork
  have hwork? := (Option.filter_eq_some_iff.mp hbegun).1
  cases job with
  | change change' stage =>
      cases hwork?
      refine ⟨.change change stage', ?_, rfl⟩
      simp [move, stepJob?, hget, hmoved]
  | provideAll todo made stage =>
      cases todo with
      | nil => cases hwork?
      | cons head rest =>
          cases hwork?
          refine ⟨.provideAll (head :: rest) made stage', ?_, rfl⟩
          simp [move, stepJob?, stepProvideAll?, hget, hmoved]
  | withdraw reason todo stage =>
      cases todo with
      | nil => cases hwork?
      | cons head rest =>
          cases hwork?
          refine ⟨.withdraw reason (head :: rest) stage', ?_, rfl⟩
          simp [move, stepJob?, stepWithdraw?, hget, hmoved]
  | call | answer | handle | sweep | receive => cases hwork?

/-- A job that owns its gate goes in when it is advanced. -/
theorem move_of_owns (hwork : c.workAt i = some (.change change .atGate))
    (howns : (c.gatesOf change).owns i = true) :
    ∃ job, c.move (.advance i) = (c.enterChange change).1.setJob i job ∧
      job.work? = some (.change change (c.enterChange change).2) :=
  move_of_moved hwork (by rw [stepChange, if_pos howns])

theorem settledAt_of_work? {job : Job} {work : Work} (hjob : c.jobs.get? i = some job)
    (hwork : job.work? = some work) : c.settledAt i = work.settled? := by
  rw [settledAt, workAt_of_get? hjob, Job.begun?, hwork, Option.filter_some]
  split
  · rfl
  · next hbegun =>
      cases work with
      | call call stage => rfl
      | change change stage =>
          cases stage with
          | fresh => rfl
          | referring | atGate | calling | releasing | pruning => exact absurd rfl hbegun

theorem settles?_of_settledAt (h : (c.move (.advance i)).settledAt i = c.settledAt i) :
    c.settles? (.advance i) = none := by
  rw [settles?, h]
  split
  · assumption
  · rfl

theorem settles?_of_unsettled (h : (c.move (.advance i)).settledAt i = none) :
    c.settles? (.advance i) = none := by
  rw [settles?, h]
  split <;> rfl

/-- What a move can do to who listens and who provides: nothing, unless a change goes through its
gate or is done since the platform has agreed. -/
inductive RollCase (c : Client) (m : Move) (c' : Client) : Prop where
  | still (hpasses : c.passes? m = none) (hsettles : c.settles? m = none)
    (hroll : c'.roll = c.roll)
  | passes {change : Change} (hpasses : c.passes? m = some change)
    (hsettles : c.settles? m = (Work.change change (c.enterChange change).2).settled?)
    (hroll : c'.roll = (c.enterChange change).1.roll)
  | settles {i : JobId} {change : Change} {id : UInt64} {slot : Nat} {value : Json}
    (hm : m = .advance i)
    (hcalling : c.workAt i = some (.change change (.calling (.over id slot (.ok value)))))
    (hpasses : c.passes? m = none)
    (hsettles : c.settles? m = some (change, (c.settleChange change).2))
    (hroll : c'.roll = (c.settleChange change).1.roll)

theorem RollCase.of_quiet (hpasses : c.passes? m = none) (hroll : c'.roll = c.roll)
    (hmove : c' = c.move m) (hwork : ∀ i, c'.workAt i = c.workAt i) : RollCase c m c' := by
  refine .still hpasses ?_ hroll
  cases m with
  | advance i =>
      apply settles?_of_settledAt
      rw [settledAt, ← hmove, hwork, settledAt]
  | _ => rfl

theorem RollCase.of_passes (hpasses : c.passes? m = some change) :
    RollCase c m (c.move m) := by
  obtain ⟨i, rfl, hwork, howns⟩ := passes?_eq_some hpasses
  obtain ⟨job, hmove, hwork'⟩ := move_of_owns hwork howns
  refine .passes hpasses ?_ (by rw [hmove]; rfl)
  have hbefore : c.settledAt i = none := by rw [settledAt, hwork]; rfl
  have hget : (c.move (.advance i)).jobs.get? i = some job := by
    rw [hmove]
    exact Dictionary.get?_put_self _ _ _
  rw [settles?, hbefore]
  exact settledAt_of_work? hget hwork'

/-- A step of a change that is not let through its gate with it. -/
theorem RollCase.of_step {c₁ : Client} {stage stage' : ChangeStage}
    (hpasses : c.passes? (.advance i) = none)
    (hbefore : c.settledAt i = (Work.change change stage).settled?)
    (hwork : stage ≠ .fresh → c.workAt i = some (.change change stage))
    (hstep : ChangeStep c i change stage c₁ stage')
    (hafter : (c.move (.advance i)).settledAt i = (Work.change change stage').settled?)
    (hroll : (c.move (.advance i)).roll = c₁.roll) :
    RollCase c (.advance i) (c.move (.advance i)) := by
  have hstill : (Work.change change stage').settled? = none → c₁.roll = c.roll →
      RollCase c (.advance i) (c.move (.advance i)) := by
    intro hnone hsame
    exact .still hpasses (settles?_of_unsettled (hafter.trans hnone)) (hroll.trans hsame)
  cases hstep with
  | refer => exact hstill rfl (roll_setGatesOf c change _)
  | join => exact hstill rfl (roll_setGatesOf c change _)
  | enter howns =>
      rw [passes?_of_owns (hwork ChangeStage.noConfusion) howns] at hpasses
      cases hpasses
  | call hmoved =>
      obtain ⟨table, sent, -, hhands⟩ := stepCall_moved hmoved
      exact hstill rfl hhands.roll
  | @settle stage client value hover =>
      rcases stepCall_over hover with ⟨-, hparams, -, -⟩ | ⟨id, slot, rfl, rfl⟩
      · cases hparams
      · refine .settles rfl (hwork ChangeStage.noConfusion) hpasses ?_ (hroll.trans ?_)
        · rw [settles?, hbefore, hafter]
          cases change <;> rfl
        · cases change <;> rfl
  | fail hover =>
      obtain ⟨table, hhands⟩ := hands_of_over hover
      exact hstill rfl hhands.roll
  | @release result =>
      have hroll' := (roll_wakeOption _ ((c.gatesOf change).release i).2).trans
        (roll_setGatesOf c change ((c.gatesOf change).release i).1)
      refine .still hpasses (settles?_of_settledAt ?_) (hroll.trans hroll')
      rw [hafter, hbefore]
      cases result <;> rfl

/-- What a move can be to who listens and who provides. -/
theorem rollCase (hnumbered : c.Numbered) (m : Move) : RollCase c m (c.move m) := by
  cases hpasses : c.passes? m with
  | some change => exact .of_passes hpasses
  | none =>
      cases moveCase hnumbered m with
      | quiet hreply h => exact .of_quiet hpasses h.roll rfl (h.work hnumbered)
      | reply hreply h => exact .of_quiet hpasses h.roll rfl (h.work hnumbered)
      | sweep hm hjob h => exact .of_quiet hpasses h.roll rfl (h.work hnumbered)
      | @turn i job work work' c₁ hm hjob hwork hturn h =>
          subst hm
          have hroll := h.keeps.roll
          have hafter : (c.move (.advance i)).settledAt i = work'.bind Work.settled? := by
            rw [settledAt, h.work, if_pos rfl]
          cases hturn with
          | call hmoved =>
              obtain ⟨table, sent, -, hhands⟩ := stepCall_moved hmoved
              exact .still hpasses (settles?_of_unsettled hafter) (hroll.trans hhands.roll)
          | callOver hover =>
              obtain ⟨table, hhands⟩ := hands_of_over hover
              exact .still hpasses (settles?_of_unsettled hafter) (hroll.trans hhands.roll)
          | @change change stage stage' _ hmoved =>
              refine .of_step hpasses (settledAt_of_work? hjob hwork) (fun hfresh => ?_)
                (stepChange_moved hmoved) hafter hroll
              apply workAt_of_work? hjob hwork
              cases stage <;> first | rfl | exact absurd rfl hfresh
          | changeOver hover =>
              obtain ⟨-, rfl⟩ := stepChange_over hover
              exact .still hpasses (settles?_of_unsettled hafter)
                (hroll.trans (roll_setGatesOf c _ _))
      | drop hm hjob hwork h =>
          subst hm
          exact .still hpasses rfl (h.keeps.roll.trans (roll_dropWork c _ _))

theorem listenersOf_put (c : Client) (event' : String) (entries : List (UInt64 × Listener))
    (event : String) :
    { c with events := c.events.put event' entries }.listenersOf event =
      if event' = event then entries else c.listenersOf event := by
  rw [listenersOf, Dictionary.get?_put]
  split <;> rfl

theorem listenersOf_attach (c : Client) (event' : String) (listener : Listener) (event : String) :
    (c.attach event' listener).1.listenersOf event =
      c.listenersOf event ++ if event' = event then [(c.nextListener, listener)] else [] := by
  refine (listenersOf_put c event' _ event).trans ?_
  by_cases heq : event' = event
  · simp [heq]
  · simp [heq]

/-- An unsubscription takes its listener away, if the event has it. -/
theorem listenersOf_unsubscribe (c : Client) (event' : String) (id : UInt64) (event : String) :
    (c.enterChange (.unsubscribe event' id)).1.listenersOf event =
      if event' = event then (c.listenersOf event).filter fun entry => entry.1 != id
      else c.listenersOf event := by
  cases detachCase c event' id with
  | unknown hkept henter =>
      rw [henter]
      split
      · next heq => exact heq ▸ hkept.symm
      · rfl
  | last hkept _ henter =>
      rw [henter, listenersOf, Dictionary.get?_erase]
      split
      · next heq => exact heq ▸ hkept.symm
      · rfl
  | others hkept henter =>
      rw [henter, listenersOf_put]
      split
      · next heq => rw [heq]
      · rfl

theorem enrols?_eq_some {listener : Listener} (h : c.enrols? m = some (event, id, listener)) :
    c.settles? m = some (.subscribe event listener, .attached id) := by
  rw [enrols?] at h
  split at h
  · next hsettles =>
      cases h
      exact hsettles
  · cases h

/-- Only a subscription brings a listener. -/
theorem enrols?_eq_none {stage : ChangeStage}
    (hsettles : c.settles? m = (Work.change change stage).settled?)
    (hother : ∀ event listener, change ≠ .subscribe event listener) : c.enrols? m = none := by
  rw [Option.eq_none_iff_forall_ne_some]
  intro enrolment henrols
  have hsubscribe := enrols?_eq_some henrols
  rw [hsettles] at hsubscribe
  exact hother _ _ (Work.eq_of_settled? hsubscribe).symm

theorem events_enterChange (hproviders : change.ofListeners = false) :
    (c.enterChange change).1.events = c.events := by
  cases change with
  | subscribe | unsubscribe => cases hproviders
  | provide event handler =>
      rw [enterChange]
      split <;> rfl
  | revoke event =>
      rw [enterChange]
      split <;> rfl

/-- The listeners of an event after a move are those before it but the one that has to go, and then
the one that comes. -/
theorem listenersOf_move (hnumbered : c.Numbered) (m : Move) (event : String) :
    (c.move m).listenersOf event =
      ((c.listenersOf event).filter fun entry => c.goes? event m ≠ some entry.1) ++
        (c.comes? event m).toList := by
  cases rollCase hnumbered m with
  | still hpasses hsettles hroll =>
      rw [listenersOf_of_roll hroll]
      simp [goes?, comes?, enrols?, hpasses, hsettles]
  | @passes change hpasses hsettles hroll =>
      rw [listenersOf_of_roll hroll]
      cases change with
      | subscribe event' listener =>
          by_cases hsubscribed : c.isSubscribed event' = true
          · rw [enterChange, if_pos hsubscribed] at hsettles ⊢
            have hattach := listenersOf_attach c event' listener event
            by_cases heq : event' = event <;>
              simp_all [goes?, comes?, enrols?, Work.settled?, attach]
          · rw [enterChange, if_neg hsubscribed] at hsettles ⊢
            simp [goes?, comes?, enrols?, hpasses, hsettles, Work.settled?]
      | unsubscribe event' id =>
          rw [listenersOf_unsubscribe, comes?,
            enrols?_eq_none hsettles fun _ _ => Change.noConfusion]
          by_cases heq : event' = event
          · simp [goes?, hpasses, heq, bne, beq_eq_decide, eq_comm]
          · simp [goes?, hpasses, heq]
      | provide | revoke =>
          rw [listenersOf, events_enterChange rfl, comes?,
            enrols?_eq_none hsettles fun _ _ => Change.noConfusion]
          simp [goes?, hpasses, listenersOf]
  | @settles i change id slot value hm hcalling hpasses hsettles hroll =>
      rw [listenersOf_of_roll hroll]
      cases change with
      | subscribe event' listener =>
          have hattach := listenersOf_attach c event' listener event
          by_cases heq : event' = event <;>
            simp_all [goes?, comes?, enrols?, settleChange, attach]
      | unsubscribe | provide | revoke =>
          simp [goes?, comes?, enrols?, hpasses, hsettles, settleChange, listenersOf]

/-- Going through its gate, an unsubscription touches nothing but who listens. -/
theorem enterChange_unsubscribe (c : Client) (event : String) (id : UInt64) :
    ∃ events, (c.enterChange (.unsubscribe event id)).1 = { c with events := events } := by
  cases detachCase c event id with
  | unknown _ henter | last _ _ henter | others _ henter => exact ⟨_, congrArg Prod.fst henter⟩

theorem nextListener_enterChange (hother : ∀ event listener, change ≠ .subscribe event listener) :
    (c.enterChange change).1.nextListener = c.nextListener := by
  cases change with
  | subscribe event listener => exact absurd rfl (hother event listener)
  | unsubscribe event id =>
      obtain ⟨events, heq⟩ := c.enterChange_unsubscribe event id
      rw [heq]
  | provide event handler =>
      rw [enterChange]
      split <;> rfl
  | revoke event =>
      rw [enterChange]
      split <;> rfl

/-- Whether a move brings a subscription to success.  If so the listener gets the next id, and the
one after it is next. -/
inductive EnrolCase (c : Client) (m : Move) : Prop
  | nobody
    (hsettles : ∀ event listener changed, c.settles? m ≠ some (.subscribe event listener, changed))
    (hnext : (c.move m).nextListener = c.nextListener)
  | somebody {event : String} {listener : Listener}
    (hsettles : c.settles? m = some (.subscribe event listener, .attached c.nextListener))
    (hnext : (c.move m).nextListener = c.nextListener + 1)

theorem enrolCase (hnumbered : c.Numbered) (m : Move) : EnrolCase c m := by
  cases rollCase hnumbered m with
  | still hpasses hsettles hroll =>
      exact .nobody (by simp [hsettles]) (congrArg Roll.nextListener hroll)
  | @passes change hpasses hsettles hroll =>
      have hnext : (c.move m).nextListener = _ := congrArg Roll.nextListener hroll
      cases change with
      | subscribe event listener =>
          by_cases hsubscribed : c.isSubscribed event = true
          · rw [enterChange, if_pos hsubscribed] at hsettles hnext
            exact .somebody hsettles hnext
          · rw [enterChange, if_neg hsubscribed] at hsettles hnext
            exact .nobody (by simp [hsettles, Work.settled?]) hnext
      | unsubscribe | provide | revoke =>
          refine .nobody ?_ (hnext.trans (nextListener_enterChange fun _ _ => Change.noConfusion))
          intro event listener changed hsubscribe
          rw [hsettles] at hsubscribe
          cases Work.eq_of_settled? hsubscribe
  | @settles i change _ _ _ hm hcalling hpasses hsettles hroll =>
      have hnext : (c.move m).nextListener = _ := congrArg Roll.nextListener hroll
      cases change with
      | subscribe event listener => exact .somebody hsettles hnext
      | unsubscribe | provide | revoke => exact .nobody (by simp [hsettles]) hnext

/-- A subscription that comes to success brings its listener. -/
theorem comes?_of_settles (hnumbered : c.Numbered) {listener : Listener} {changed : Changed}
    (hsettles : c.settles? m = some (.subscribe event listener, changed)) :
    ∃ id, changed = .attached id ∧ c.comes? event m = some (id, listener) := by
  cases enrolCase hnumbered m with
  | nobody hnone => exact absurd hsettles (hnone event listener changed)
  | somebody hsome =>
      rw [hsome] at hsettles
      cases hsettles
      exact ⟨_, rfl, by simp [comes?, enrols?, hsome]⟩

theorem get?_providers_enterChange
    (hsettled : ∀ handler changed, (Work.change change (c.enterChange change).2).settled? ≠
      some (.provide event handler, changed))
    (hrevoke : change ≠ .revoke event) :
    (c.enterChange change).1.providers.get? event = c.providers.get? event := by
  cases change with
  | subscribe event' listener =>
      rw [enterChange]
      split <;> rfl
  | unsubscribe event' id =>
      obtain ⟨events, heq⟩ := c.enterChange_unsubscribe event' id
      rw [heq]
  | provide event' handler =>
      rw [enterChange] at hsettled ⊢
      split
      · next hprovided =>
          rw [if_pos hprovided] at hsettled
          apply Dictionary.get?_put_of_ne
          rintro rfl
          exact hsettled _ _ rfl
      · rfl
  | revoke event' =>
      rw [enterChange]
      split
      · apply Dictionary.get?_erase_of_ne
        rintro rfl
        exact hrevoke rfl
      · rfl

/-- Who provides for an event stays so until another does or it is taken back. -/
theorem get?_providers_move (hnumbered : c.Numbered)
    (hprovide : ∀ handler changed, c.settles? m ≠ some (.provide event handler, changed))
    (hrevoke : c.passes? m ≠ some (.revoke event)) :
    (c.move m).providers.get? event = c.providers.get? event := by
  cases rollCase hnumbered m with
  | still hpasses hsettles hroll =>
      rw [show (c.move m).providers = c.providers from congrArg Roll.providers hroll]
  | @passes change hpasses hsettles hroll =>
      rw [show (c.move m).providers = _ from congrArg Roll.providers hroll]
      apply get?_providers_enterChange
      · rwa [hsettles] at hprovide
      · rintro rfl
        exact hrevoke hpasses
  | @settles i change _ _ _ hm hcalling hpasses hsettles hroll =>
      rw [show (c.move m).providers = _ from congrArg Roll.providers hroll]
      cases change with
      | provide event' handler =>
          apply Dictionary.get?_put_of_ne
          rintro rfl
          exact hprovide _ _ hsettles
      | subscribe | unsubscribe | revoke => rfl

/-- Who has come to provide for an event does. -/
theorem get?_providers_of_settles (hnumbered : c.Numbered) {handler : Handler} {changed : Changed}
    (hprovide : c.settles? m = some (.provide event handler, changed)) :
    (c.move m).providers.get? event = some handler := by
  cases rollCase hnumbered m with
  | still hpasses hsettles hroll =>
      rw [hsettles] at hprovide
      cases hprovide
  | @passes change hpasses hsettles hroll =>
      rw [show (c.move m).providers = _ from congrArg Roll.providers hroll]
      rw [hsettles] at hprovide
      obtain rfl := Work.eq_of_settled? hprovide
      rw [enterChange] at hprovide ⊢
      split
      · exact Dictionary.get?_put_self _ _ _
      · next hnone =>
          rw [if_neg hnone] at hprovide
          cases hprovide
  | settles hm hcalling hpasses hsettles hroll =>
      rw [show (c.move m).providers = _ from congrArg Roll.providers hroll]
      rw [hsettles] at hprovide
      cases hprovide
      exact Dictionary.get?_put_self _ _ _

end roll

end Client

end GatewayClient
