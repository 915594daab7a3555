/-
The client and the platform agree about who listens.  As long as the platform grants what it is
asked and nobody gives up on asking, the requests about an event ask for its notices and for no more
of them by turns, and what was asked last is what the client has listeners for.  Only while a
request is under way may the two be apart, and then it is known by how much.
-/
import GatewayClient.Proofs.Client.FirstReply
import GatewayClient.Proofs.Client.Roster
import GatewayClient.Proofs.Client.Transition
import Mathlib.Data.List.Chain

namespace GatewayClient

namespace CallStage

/-- Whether a call that goes well has handed its frame over; of one that has failed it does not
matter. -/
def handed? : CallStage → Option Bool
  | .fresh | .entered _ _ | .crowded _ _ => some false
  | .waiting _ _ _ | .overdue _ _ | .over _ _ (.ok _) => some true
  | .over _ _ (.error _) => none

/-- Whether a call is over as one whose frame the link has refused. -/
def isRefused : CallStage → Bool
  | .over _ _ (.error .notConnected) => true
  | _ => false

end CallStage

namespace Work

/-- Whether a piece of work is a change of who listens. -/
def ofListeners : Work → Bool
  | call _ _ => false
  | change c _ => c.ofListeners

/-- Whether a piece of work is in a call that has failed. -/
def hasFailed : Work → Bool
  | change _ (.calling (.over _ _ (.error _))) => true
  | _ => false

end Work

namespace Client

/-- What a frame asks of the platform about an event: its notices, or no more of them. -/
def listenOf? (event : String) (frame : Json) : Option Bool :=
  if frame.get? "method" = some (.string event) then
    match (frame.get? "params").bind fun params => params.get? "listen" with
    | some (.bool listen) => some listen
    | _ => none
  else none

/-- What the platform is asked with a move by a change of who listens to an event, in the frames
that the link takes. -/
def asked (c : Client) (event : String) : Move → List Bool
  | .advance i =>
    match c.workAt i with
    | some (.change change (.calling _)) =>
      if change.ofListeners = true ∧ change.event = event then
        ((c.move (.advance i)).sent.drop c.sent.length).filterMap (listenOf? event)
      else []
    | _ => []
  | _ => []

/-- What the platform is asked in a run by the changes of who listens to an event, in order. -/
def askedIn (c : Client) (event : String) : List Move → List Bool
  | [] => []
  | m :: rest => c.asked event m ++ (c.move m).askedIn event rest

/-- A move after which all calls about listeners may still go well: none is given up, and none ends
that has failed. -/
def Grants (c : Client) : Move → Prop
  | .advance i => ∀ work ∈ c.workAt i, work.ofListeners = true → work.hasFailed = false
  | .drop i => ∀ work ∈ c.workAt i, work.ofListeners = false
  | _ => True

/-- What was asked last about an event, where at first it has not been asked for. -/
def lastAsked (c : Client) (event : String) (moves : List Move) : Bool :=
  (c.askedIn event moves).getLastD false

/-- A job is in a call about the listeners of an event. -/
def AsksAbout (c : Client) (event : String) (i : JobId) (change : Change) (stage : CallStage) :
    Prop :=
  c.workAt i = some (.change change (.calling stage)) ∧ change.ofListeners = true ∧
    change.event = event

/-- What was asked last about an event is what the client has listeners for, or is about to be put
right: a call about them is under way, which has handed over what is asked for or has yet to. -/
structure Accord (c : Client) (event : String) (last : Bool) : Prop where
  idle : (∀ i change stage, ¬c.AsksAbout event i change stage) → last = c.isSubscribed event
  asking : ∀ i change stage handed, c.AsksAbout event i change stage →
    stage.handed? = some handed → last = (handed == change.listens)

section frames

theorem listenOf?_requestFrame (c : Client) (change : Change) (id : UInt64) :
    listenOf? change.event (requestFrame (c.changeCall change) id) = some change.listens := by
  have hmembers : requestFrame (c.changeCall change) id = Json.ofMembers
      [("jsonrpc", .string protocolVersion), ("id", Json.ofWord id),
        ("method", .string change.event), ("params", Request.listenParams change.listens)] := rfl
  simp [listenOf?, hmembers, Json.ofMembers, Json.sortMembers, Json.get?, Json.member?_putMember,
    Request.listenParams, Json.member?]

theorem listenOf?_toJson (event : String) (r : Response) : listenOf? event r.toJson = none := by
  obtain ⟨version, id, result, error⟩ := r
  cases result <;> cases error <;>
    simp [listenOf?, Response.toJson, Response.codec, Codec.convert, Fields.record,
      Fields.toMembers, Field.required, Field.optional, Json.ofMembers, Json.sortMembers, Json.get?,
      Json.member?_putMember, Json.member?]

end frames

variable {c c' : Client} {event : String} {last : Bool} {i j : JobId} {change : Change}
  {m : Move}

/-- Nothing is asked when all that is sent is replies. -/
theorem asked_of_replies (hsent : ∃ replies : List Response,
    (c.move m).sent = c.sent ++ replies.map Response.toJson) : c.asked event m = [] := by
  obtain ⟨replies, hsent⟩ := hsent
  cases m with
  | advance i =>
      rw [asked]
      split
      · split
        · rw [hsent, List.drop_left, List.filterMap_eq_nil_iff]
          intro frame hframe
          obtain ⟨r, -, rfl⟩ := List.mem_map.mp hframe
          exact listenOf?_toJson event r
        · rfl
      · rfl
  | _ => rfl

theorem asked_of_not_asking (hnot : ∀ change stage, ¬c.AsksAbout event i change stage) :
    c.asked event (.advance i) = [] := by
  rw [asked]
  split
  · next change stage hwork =>
      rw [if_neg]
      exact fun habout => hnot change stage ⟨hwork, habout.1, habout.2⟩
  · rfl

theorem asked_of_asking {stage : CallStage} (hasks : c.AsksAbout event i change stage) :
    c.asked event (.advance i) =
      ((c.move (.advance i)).sent.drop c.sent.length).filterMap (listenOf? event) := by
  obtain ⟨hwork, habout⟩ := hasks
  rw [asked, hwork]
  exact if_pos habout

namespace Accord

/-- The same calls are under way, and the event has listeners as before. -/
theorem keep (h : c.Accord event last) (hsubscribed : c'.isSubscribed event = c.isSubscribed event)
    (hasks : ∀ i change stage, c'.AsksAbout event i change stage ↔
      c.AsksAbout event i change stage) : c'.Accord event last where
  idle := by
    intro hidle
    rw [hsubscribed]
    exact h.idle fun i change stage hasking => hidle i change stage ((hasks ..).mpr hasking)
  asking := by
    intro i change stage handed hasking
    exact h.asking i change stage handed ((hasks ..).mp hasking)

theorem of_work (h : c.Accord event last)
    (hsubscribed : c'.isSubscribed event = c.isSubscribed event)
    (hwork : ∀ i, c'.workAt i = c.workAt i) : c'.Accord event last := by
  apply h.keep hsubscribed
  intro i change stage
  rw [AsksAbout, hwork, AsksAbout]

/-- The work of one job changes, which is in no call about the event before or after. -/
theorem of_leaves {c₁ : Client} {work : Option Work} (h : c.Accord event last)
    (hsubscribed : c'.isSubscribed event = c.isSubscribed event)
    (hleaves : Leaves c c₁ c' i work)
    (hbefore : ∀ change stage, ¬c.AsksAbout event i change stage)
    (hafter : ∀ change stage, ¬c'.AsksAbout event i change stage) : c'.Accord event last := by
  apply h.keep hsubscribed
  intro j change stage
  by_cases hj : j = i
  · subst hj
    exact ⟨fun hasks => absurd hasks (hafter change stage),
      fun hasks => absurd hasks (hbefore change stage)⟩
  · rw [AsksAbout, hleaves.work, if_neg hj, AsksAbout]

/-- Nobody is in a call about the event. -/
theorem of_idle (hidle : ∀ i change stage, ¬c.AsksAbout event i change stage)
    (hlast : last = c.isSubscribed event) : c.Accord event last where
  idle := fun _ => hlast
  asking := fun i change stage _ hasks => absurd hasks (hidle i change stage)

/-- One job is in a call about the event. -/
theorem of_asking {stage : CallStage} (horderly : c.GatesOrderly)
    (hasks : c.AsksAbout event i change stage)
    (hlast : ∀ handed, stage.handed? = some handed → last = (handed == change.listens)) :
    c.Accord event last where
  idle := fun hidle => absurd hasks (hidle i change stage)
  asking := by
    rintro j change' stage' handed ⟨hwork', hlisteners', hevent'⟩ hhanded
    obtain ⟨hwork, hlisteners, hevent⟩ := hasks
    obtain rfl := horderly.eq_of_calling hwork hwork' hlisteners hlisteners'
      (hevent.trans hevent'.symm)
    rw [hwork] at hwork'
    cases hwork'
    exact hlast handed hhanded

end Accord

theorem work?_of_workAt {job : Job} {work : Work} (hjob : c.jobs.get? i = some job)
    (hwork : c.workAt i = some work) : job.work? = some work := by
  rw [workAt_of_get? hjob] at hwork
  exact (Option.filter_eq_some_iff.mp hwork).1

theorem not_asksAbout {job : Job} {work : Work} (hjob : c.jobs.get? i = some job)
    (hwork : job.work? = some work)
    (hother : ∀ change stage, work = .change change (.calling stage) → change.ofListeners = true →
      change.event ≠ event) (change : Change) (stage : CallStage) :
    ¬c.AsksAbout event i change stage := by
  rintro ⟨hasks, hlisteners, hevent⟩
  have hsame := work?_of_workAt hjob hasks
  rw [hwork] at hsame
  exact hother change stage (Option.some.inj hsame) hlisteners hevent

/-- Nobody but the owner of the gate of an event asks about it. -/
theorem AsksAbout.eq_of_owns {stage : CallStage} (hasks : c.AsksAbout event i change stage)
    (horderly : c.GatesOrderly) {phase : VisitPhase}
    (hvisit : c.visits true j = some (event, phase))
    (howns : (c.gatesFor true).owns j = true) : i = j := by
  obtain ⟨hwork, hlisteners, rfl⟩ := hasks
  have hinside := visits_of_calling hlisteners hwork
  exact (horderly true).eq_of_owns hinside hvisit ((horderly true).owns_of_inside hinside) howns

theorem Tidy.isSubscribed_iff (htidy : c.Tidy) (event : String) :
    c.isSubscribed event = true ↔ c.listenersOf event ≠ [] := by
  rw [htidy.isSubscribed_eq, decide_eq_true_eq, listenerCount, ← listenersOf, List.length_pos_iff]

/-- Whoever has to ask for notices finds no listeners, and whoever has to ask for no more of them
finds some. -/
theorem Tidy.isSubscribed_of_switches (htidy : c.Tidy) (hswitches : c.Switches change) :
    c.isSubscribed change.event = !change.listens := by
  cases change with
  | subscribe event listener =>
      rw [Switches] at hswitches
      exact Bool.eq_false_iff.mpr fun h => (htidy.isSubscribed_iff event).mp h hswitches
  | unsubscribe event id => exact (htidy.isSubscribed_iff event).mpr hswitches.1
  | provide | revoke => exact absurd hswitches id

/-- A change that need not ask leaves an event with listeners, or without, as it is. -/
theorem isSubscribed_of_releasing {changed : Changed}
    (hstage : (c.enterChange change).2 = .releasing (.ok changed)) (event : String) :
    (c.enterChange change).1.isSubscribed event = c.isSubscribed event := by
  have hput : ∀ event' entries, c.isSubscribed event' = true →
      { c with events := c.events.put event' entries }.isSubscribed event =
        c.isSubscribed event := by
    intro event' entries hsubscribed
    rw [isSubscribed, Dictionary.contains, Dictionary.get?_put]
    split
    · next heq => rw [← heq, hsubscribed]; rfl
    · rfl
  cases change with
  | subscribe event' listener =>
      rw [enterChange] at hstage ⊢
      split
      · next hsubscribed => exact hput event' _ hsubscribed
      · rfl
  | unsubscribe event' id =>
      cases detachCase c event' id with
      | unknown _ henter => rw [henter]
      | last _ _ henter =>
          rw [henter] at hstage
          cases hstage
      | others hkept henter =>
          rw [henter]
          apply hput
          by_contra hnone
          rw [listenersOf_eq_nil (Bool.eq_false_iff.mpr hnone)] at hkept
          exact hkept rfl
  | provide event' handler => exact isSubscribed_congr (by rw [events_enterChange rfl])
  | revoke event' => exact isSubscribed_congr (by rw [events_enterChange rfl])

theorem isSubscribed_settleChange (hlisteners : change.ofListeners = true)
    (hsilent : c.isSubscribed change.event = false) :
    (c.settleChange change).1.isSubscribed change.event = change.listens := by
  cases change with
  | subscribe event listener =>
      rw [isSubscribed, Dictionary.contains, settleChange]
      simp only [attach, Change.event, Dictionary.get?_put_self]
      rfl
  | unsubscribe event id => exact hsilent
  | provide | revoke => cases hlisteners

/-- A move asks by turns, and keeps client and platform in accord. -/
structure KeepsAccord (c : Client) (event : String) (last : Bool) (m : Move) : Prop where
  alternates : (last :: c.asked event m).IsChain (· ≠ ·)
  accord : (c.move m).Accord event ((c.asked event m).getLastD last)

namespace KeepsAccord

theorem of_nothing (hasked : c.asked event m = []) (h : (c.move m).Accord event last) :
    c.KeepsAccord event last m where
  alternates := by simp [hasked]
  accord := by simpa [hasked] using h

theorem of_one {listen : Bool} (hasked : c.asked event m = [listen]) (hne : last ≠ listen)
    (h : (c.move m).Accord event listen) : c.KeepsAccord event last m where
  alternates := by simpa [hasked] using hne
  accord := by simpa [hasked] using h

/-- A move by a job whose work is in no call about the event before or after. -/
theorem of_leaves {c₁ : Client} {job : Job} {work : Work} {work' : Option Work}
    (h : c.Accord event last)
    (hsubscribed : (c.move (.advance i)).isSubscribed event = c.isSubscribed event)
    (hleaves : Leaves c c₁ (c.move (.advance i)) i work')
    (hjob : c.jobs.get? i = some job) (hwork : job.work? = some work)
    (hbefore : ∀ change stage, work = .change change (.calling stage) → change.ofListeners = true →
      change.event ≠ event)
    (hafter : ∀ change stage, work' = some (.change change (.calling stage)) →
      change.ofListeners = true → change.event ≠ event) :
    c.KeepsAccord event last (.advance i) := by
  have hnot := not_asksAbout hjob hwork hbefore
  apply of_nothing (asked_of_not_asking hnot)
  apply h.of_leaves hsubscribed hleaves hnot
  rintro change stage ⟨hasks, hlisteners, hevent⟩
  rw [hleaves.work, if_pos rfl] at hasks
  exact hafter change stage hasks hlisteners hevent

/-- A move by a job that is in no call of any change before or after. -/
theorem of_outside {c₁ : Client} {job : Job} {work : Work} {work' : Option Work}
    (h : c.Accord event last) (hevents : c₁.events = c.events)
    (hleaves : Leaves c c₁ (c.move (.advance i)) i work')
    (hjob : c.jobs.get? i = some job) (hwork : job.work? = some work)
    (hbefore : ∀ change stage, work ≠ .change change (.calling stage))
    (hafter : ∀ change stage, work' ≠ some (.change change (.calling stage))) :
    c.KeepsAccord event last (.advance i) := by
  apply of_leaves h ?_ hleaves hjob hwork
  · exact fun change stage hcalling => absurd hcalling (hbefore change stage)
  · exact fun change stage hcalling => absurd hcalling (hafter change stage)
  · exact isSubscribed_congr (by rw [hleaves.keeps.events, hevents])

/-- A job that is in its call about the event and makes a step of it. -/
theorem of_call {c₁ : Client} {stage stage' : CallStage} (h : c.Accord event last)
    (horderly : (c.move (.advance i)).GatesOrderly) (hasks : c.AsksAbout event i change stage)
    (hmoved : c.stepCall i (c.changeCall change) stage = .moved c₁ stage')
    (hleaves : Leaves c c₁ (c.move (.advance i)) i (some (.change change (.calling stage')))) :
    c.KeepsAccord event last (.advance i) := by
  have hasked := asked_of_asking hasks
  have hlast := fun handed => h.asking i change stage handed hasks
  obtain ⟨-, hlisteners, rfl⟩ := hasks
  obtain ⟨table, sent, hstep, hhands⟩ := stepCall_moved hmoved
  have hsent : (c.move (.advance i)).sent = sent := by
    obtain ⟨link, ready, rfl⟩ := hhands
    exact hleaves.sent
  have hafter : (c.move (.advance i)).AsksAbout change.event i change stage' :=
    ⟨(hleaves.work i).trans (if_pos rfl), hlisteners, rfl⟩
  rw [hsent] at hasked
  -- Only handing the frame over asks; every other step has handed it over before, or has yet to.
  have hkeep : sent = c.sent →
      (∀ handed, stage'.handed? = some handed → stage.handed? = some handed) →
      c.KeepsAccord change.event last (.advance i) := by
    intro hsame hhanded
    refine of_nothing (by rw [hasked, hsame]; simp) (.of_asking horderly hafter fun handed h => ?_)
    exact hlast handed (hhanded handed h)
  cases hstep with
  | @hand _ id slot hunsent hentry =>
      have hbefore : last = (false == change.listens) := by
        apply hlast
        cases stage with
        | entered | crowded => rfl
        | fresh | waiting | overdue | «over» => cases hunsent
      have hone : c.asked change.event (.advance i) = [change.listens] := by
        rw [hasked, List.drop_left]
        simp [listenOf?_requestFrame]
      refine of_one hone ?_ (.of_asking horderly hafter fun handed h => ?_)
      · rw [hbefore]
        cases change.listens <;> decide
      · cases h
        cases change.listens <;> rfl
  | enter | queue => exact hkeep rfl fun _ => id
  | refuse | miss | cancel => exact hkeep rfl (by simp [CallStage.handed?])
  | @take _ _ _ outcome =>
      cases outcome with
      | ok value => exact hkeep rfl fun _ => id
      | error f => exact hkeep rfl (by simp [CallStage.handed?])
  | expire => exact hkeep rfl fun _ => id

/-- A job whose change goes through the gate of the event. -/
theorem of_enter {job : Job} (h : c.Accord event last) (htidy : c.Tidy) (hbefore : c.GatesOrderly)
    (horderly : (c.move (.advance i)).GatesOrderly) (hjob : c.jobs.get? i = some job)
    (hwork : job.work? = some (.change change .atGate)) (hlisteners : change.ofListeners = true)
    (hevent : change.event = event) (howns : (c.gatesOf change).owns i = true)
    (hleaves : Leaves c (c.enterChange change).1 (c.move (.advance i)) i
      (some (.change change (c.enterChange change).2))) :
    c.KeepsAccord event last (.advance i) := by
  subst hevent
  have hnot : ∀ change' stage, ¬c.AsksAbout change.event i change' stage :=
    not_asksAbout hjob hwork (by rintro _ _ ⟨⟩)
  have hvisit : c.visits true i = some (change.event, .waiting) := by
    have hvisits := visits_of_work? true hjob hwork
    rwa [Work.visit?, if_pos hlisteners] at hvisits
  rw [gatesOf_eq, hlisteners] at howns
  -- The job owns the gate, so nobody is asking, and what was asked last is as it should be.
  have hidle : ∀ j change' stage, ¬c.AsksAbout change.event j change' stage := by
    intro j change' stage hasks
    obtain rfl := hasks.eq_of_owns hbefore hvisit howns
    exact hnot change' stage hasks
  have hlast := h.idle hidle
  apply of_nothing (asked_of_not_asking hnot)
  have hsubscribed : (c.move (.advance i)).isSubscribed change.event =
      (c.enterChange change).1.isSubscribed change.event :=
    isSubscribed_congr (by rw [hleaves.keeps.events])
  have hafter := (hleaves.work i).trans (if_pos rfl)
  rcases c.enterChange_stage change with hcalling | ⟨changed, hreleasing⟩
  · rw [hcalling] at hafter
    refine .of_asking horderly ⟨hafter, hlisteners, rfl⟩ fun handed hhanded => ?_
    cases hhanded
    have hswitches := (switches_of_enterChange hlisteners hcalling).1
    rw [hlast, htidy.isSubscribed_of_switches hswitches]
    cases change.listens <;> rfl
  · refine .of_idle ?_ ?_
    · rintro j change' stage hasks
      obtain ⟨hwork', -⟩ := id hasks
      by_cases hj : j = i
      · rw [hj, hafter, hreleasing] at hwork'
        cases hwork'
      · rw [hleaves.work, if_neg hj] at hwork'
        exact hidle j change' stage ⟨hwork', hasks.2⟩
    · rw [hlast, hsubscribed, isSubscribed_of_releasing hreleasing]

/-- A job whose call about the event has gone well. -/
theorem of_settle {stage : CallStage} {value : Json} {c₁ : Client} (h : c.Accord event last)
    (hbefore : c.GatesOrderly) (hsilent : c.Silent) (hasks : c.AsksAbout event i change stage)
    (hover : c.stepCall i (c.changeCall change) stage = .over c₁ (.ok value))
    (hleaves : Leaves c (c₁.settleChange change).1 (c.move (.advance i)) i
      (some (.change change (.releasing (.ok (c₁.settleChange change).2))))) :
    c.KeepsAccord event last (.advance i) := by
  obtain ⟨id, slot, rfl, hleft⟩ := calling_over hover
  have hlast := h.asking i change _ true hasks rfl
  have hasked := asked_of_asking hasks
  obtain ⟨hwork, hlisteners, rfl⟩ := hasks
  apply of_nothing
  · rw [hasked, hleaves.sent, (Rearranges.settleChange c₁ change).sent, hleft]
    simp
  · apply Accord.of_idle
    · rintro j change' stage hasks
      obtain ⟨hwork', hlisteners', hevent'⟩ := hasks
      rw [hleaves.work] at hwork'
      split at hwork'
      · cases hwork'
      · next hj =>
          exact hj (hbefore.eq_of_calling hwork' hwork hlisteners' hlisteners hevent')
    · have hnone : c₁.isSubscribed change.event = false :=
        (isSubscribed_congr (by rw [hleft])).trans (hsilent i change _ hwork hlisteners)
      have hsettled : (c.move (.advance i)).isSubscribed change.event =
          (c₁.settleChange change).1.isSubscribed change.event :=
        isSubscribed_congr (by rw [hleaves.keeps.events])
      rw [hlast, hsettled, isSubscribed_settleChange hlisteners hnone]
      cases change.listens <;> rfl

/-- A step of a change. -/
theorem of_step {c₁ : Client} {job : Job} {stage stage' : ChangeStage} (h : c.Accord event last)
    (htidy : c.Tidy) (hsilent : c.Silent) (hbefore : c.GatesOrderly)
    (horderly : (c.move (.advance i)).GatesOrderly) (hjob : c.jobs.get? i = some job)
    (hwork : job.work? = some (.change change stage))
    (hstep : ChangeStep c i change stage c₁ stage')
    (hleaves : Leaves c c₁ (c.move (.advance i)) i (some (.change change stage')))
    (hgrants : c.Grants (.advance i)) : c.KeepsAccord event last (.advance i) := by
  by_cases habout : change.ofListeners = true ∧ change.event = event
  · obtain ⟨hlisteners, hevent⟩ := habout
    have hasks : ∀ {call}, stage = .calling call → c.AsksAbout event i change call := by
      rintro call rfl
      exact ⟨workAt_of_work? hjob hwork rfl, hlisteners, hevent⟩
    cases hstep with
    | refer | join =>
        exact of_outside h (events_setGatesOf c change _) hleaves hjob hwork (by simp) (by simp)
    | enter howns =>
        exact of_enter h htidy hbefore horderly hjob hwork hlisteners hevent howns hleaves
    | call hmoved => exact of_call h horderly (hasks rfl) hmoved hleaves
    | settle hover => exact of_settle h hbefore hsilent (hasks rfl) hover hleaves
    | fail hover =>
        obtain ⟨id, slot, rfl, -⟩ := calling_over hover
        have hfailed := hgrants _ (hasks rfl).1 hlisteners
        cases hfailed
    | release =>
        have hevents := (events_wakeOption _ ((c.gatesOf change).release i).2).trans
          (events_setGatesOf c change ((c.gatesOf change).release i).1)
        exact of_outside h hevents hleaves hjob hwork (by simp) (by simp)
  · apply of_leaves h (isSubscribed_congr ?_) hleaves hjob hwork
    · rintro _ _ ⟨⟩ hlisteners hevent
      exact habout ⟨hlisteners, hevent⟩
    · rintro _ _ ⟨⟩ hlisteners hevent
      exact habout ⟨hlisteners, hevent⟩
    · rw [hleaves.keeps.events]
      rcases hstep.get?_events event with hevents | ⟨hown, -⟩
      · exact hevents
      · exact absurd hown habout

end KeepsAccord

/-- Every move asks by turns, and keeps client and platform in accord. -/
theorem Accord.move (h : c.Accord event last) (hnumbered : c.Numbered) (htidy : c.Tidy)
    (hsilent : c.Silent) (horderly : c.GatesOrderly) (hgrants : c.Grants m) :
    c.KeepsAccord event last m := by
  have hnext := horderly.move hnumbered m
  cases moveCase hnumbered m with
  | quiet hreply hquiet =>
      exact .of_nothing (asked_of_replies hquiet.sent)
        (h.of_work (isSubscribed_congr (by rw [hquiet.events])) (hquiet.work hnumbered))
  | reply hreply hquiet =>
      exact .of_nothing (asked_of_replies hquiet.sent)
        (h.of_work (isSubscribed_congr (by rw [hquiet.events])) (hquiet.work hnumbered))
  | sweep hm hjob hquiet =>
      exact .of_nothing (asked_of_replies hquiet.sent)
        (h.of_work (isSubscribed_congr (by rw [hquiet.events])) (hquiet.work hnumbered))
  | @turn i job work work' c₁ hm hjob hwork hturn hleaves =>
      subst hm
      cases hturn with
      | call hmoved =>
          obtain ⟨table, sent, -, hhands⟩ := stepCall_moved hmoved
          exact .of_outside h hhands.events hleaves hjob hwork (by simp) (by simp)
      | callOver hover =>
          obtain ⟨table, hhands⟩ := hands_of_over hover
          exact .of_outside h hhands.events hleaves hjob hwork (by simp) (by simp)
      | change hmoved =>
          exact .of_step h htidy hsilent horderly hnext hjob hwork (stepChange_moved hmoved) hleaves
            hgrants
      | changeOver hover =>
          obtain ⟨rfl, rfl⟩ := stepChange_over hover
          exact .of_outside h (events_setGatesOf c _ _) hleaves hjob hwork (by simp) (by simp)
  | @drop i job work hm hjob hwork hleaves =>
      subst hm
      apply KeepsAccord.of_nothing rfl
      apply h.of_leaves ?_ hleaves
      · rintro change stage ⟨hasks, hlisteners, -⟩
        have hkept : change.ofListeners = false := hgrants _ hasks
        rw [hlisteners] at hkept
        cases hkept
      · rintro change stage ⟨hasks, -⟩
        rw [hleaves.work, if_pos rfl] at hasks
        cases hasks
      · apply isSubscribed_congr
        rw [hleaves.keeps.events]
        exact congrArg (Dictionary.get? · event) (congrArg Roll.events (roll_dropWork c i work))

theorem isChain_cons_append {α : Type} {R : α → α → Prop} {a : α} {first second : List α}
    (hfirst : (a :: first).IsChain R) (hsecond : (first.getLastD a :: second).IsChain R) :
    (a :: (first ++ second)).IsChain R := by
  cases second with
  | nil => simpa using hfirst
  | cons b rest =>
      obtain ⟨hstep, hrest⟩ := List.isChain_cons_cons.mp hsecond
      rw [← List.cons_append, List.isChain_append]
      refine ⟨hfirst, hrest, ?_⟩
      simpa [List.getLast?_cons, List.getLastD_eq_getLast?] using hstep

/-- In a run the platform is asked by turns, and what was asked last is in accord with who listens.
-/
theorem Accord.run (h : c.Accord event last) (hnumbered : c.Numbered) (htidy : c.Tidy)
    (hsilent : c.Silent) (horderly : c.GatesOrderly) {moves : List Move}
    (hgrants : c.Throughout Grants moves) :
    (last :: c.askedIn event moves).IsChain (· ≠ ·) ∧
      (c.run moves).Accord event ((c.askedIn event moves).getLastD last) := by
  induction moves generalizing c last with
  | nil => exact ⟨by simp [askedIn], by simpa [askedIn] using h⟩
  | cons m rest ih =>
      obtain ⟨hchain, hnext⟩ := h.move hnumbered htidy hsilent horderly hgrants.1
      obtain ⟨hrest, hlast⟩ := ih hnext (hnumbered.move m) (htidy.move hnumbered m)
        (hsilent.move hnumbered horderly m) (horderly.move hnumbered m) hgrants.2
      refine ⟨isChain_cons_append hchain hrest, ?_⟩
      rw [askedIn]
      simpa [List.getLastD_eq_getLast?, List.getLast?_append, Option.getD_or] using hlast

/-- The id and the slot of a call about listeners that still listens for its outcome. -/
def listeningCall? : Job → Option (UInt64 × Nat)
  | .change change (.calling stage) =>
    if change.ofListeners = true ∧ stage.listened?.isSome then stage.entryOf? else none
  | _ => none

/-- The id of the call that a sweeper looks at with a move, and since when it sweeps. -/
def sweeps? (c : Client) : Move → Option (Nat × UInt64)
  | .advance j =>
    match c.jobs.get? j with
    | some (.sweep _ (.removing startedAt (id :: _))) => some (startedAt, id)
    | _ => none
  | _ => none

/-- With a move, the platform and the link do what a call asks for: the first reply to it is a
success and comes before a sweep or its deadline, and its frame is not refused. -/
def Serves (c : Client) (m : Move) (i : JobId) (id : UInt64) (slot : Nat) : Prop :=
  ((c.table.slotAt slot).content = .empty →
    (∀ r ∈ c.replyIn? m, r.callId? = some id → r.outcome.isOk = true) ∧
    (∀ sweep ∈ c.sweeps? m, sweep.2 = id → c.table.hasExpired sweep.1 id = false) ∧
    (m = .advance i → ∀ deadline ∈ (c.jobs.get? i).bind deadlineOf, c.now < deadline)) ∧
  (m = .advance i → ∀ call ∈ (c.move m).callAt i, call.2.isRefused = false)

/-- With a move, all calls about listeners are served, and none is given up. -/
def Obliges (c : Client) (m : Move) : Prop :=
  (∀ entry ∈ c.jobs, ∀ call ∈ listeningCall? entry.2, c.Serves m entry.1 call.1 call.2) ∧
    match m with
    | .drop i => ∀ work ∈ c.workAt i, work.ofListeners = false
    | _ => True

instance (c : Client) (m : Move) (i : JobId) (id : UInt64) (slot : Nat) :
    Decidable (c.Serves m i id slot) := by
  unfold Serves
  infer_instance

instance (c : Client) (m : Move) : Decidable (c.Obliges m) := by
  unfold Obliges
  cases m <;> infer_instance

/-- A call about listeners that is served does not come to a failure with the move. -/
theorem Obliges.not_decides {id : UInt64} {slot : Nat} {f : Failure} {heard : List Response}
    (hobliges : c.Obliges m) (hlisteners : change.ofListeners = true)
    (hjob : ∀ call stage, c.callAt i = some (call, stage) →
      c.jobs.get? i = some (.change change (.calling stage))) :
    ¬c.Decides i id slot heard m (.error f) := by
  have hserves : ∀ call stage id slot, c.callAt i = some (call, stage) →
      stage.listened? = some slot → stage.entryOf? = some (id, slot) → c.Serves m i id slot := by
    intro call stage id slot hcall hlistened hentry
    have hmem := Dictionary.mem_of_get? (hjob call stage hcall)
    exact hobliges.1 _ hmem (id, slot) (by simp [listeningCall?, hlisteners, hlistened, hentry])
  intro hdecides
  generalize houtcome : Except.error f = outcome at hdecides
  cases hdecides with
  | @reply r hopen hreply hid hfirst =>
      obtain ⟨call, stage, hcall, hentry, hlistened, hempty⟩ := hopen
      have hok := ((hserves call stage id slot hcall hlistened hentry).1 hempty).1 r hreply hid
      rw [← houtcome] at hok
      cases hok
  | @sweep j next startedAt rest hopen hm hjob' hexpired hfirst =>
      obtain ⟨call, stage, hcall, hentry, hlistened, hempty⟩ := hopen
      have hkept := ((hserves call stage id slot hcall hlistened hentry).1 hempty).2.1
        (startedAt, id) (by simp [sweeps?, hm, hjob']) rfl
      rw [hexpired] at hkept
      cases hkept
  | @deadline call deadline hopen hm hcall hdeadline hfirst =>
      obtain ⟨-, -, -, -, -, hempty⟩ := hopen
      have hat : deadline ∈ (c.jobs.get? i).bind deadlineOf := by
        simp [hjob call _ hcall, deadlineOf, callStageOf]
      have hkept := ((hserves call _ id slot hcall rfl rfl).1 hempty).2.2 hm deadline hat
      exact absurd hdeadline (Nat.not_le_of_lt hkept)
  | @refusal call stage hm hcall hunsent hover =>
      obtain ⟨slot', hentry, hlistened⟩ := CallStage.entryOf?_of_unsent? hunsent
      have htaken := (hserves call stage id slot' hcall hlistened hentry).2 hm _ hover
      cases htaken

/-- The outcome of a call that is over was decided at some move since the call entered the table. -/
theorem exists_decided (hmatched : c.Matched) (hnone : ∀ i, c.callAt i = none) {moves : List Move}
    (hdrawn : (c.run moves).table.slots.length < UInt64.size) {call : Call} {id : UInt64}
    {slot : Nat} {outcome : Outcome}
    (hcall : (c.run moves).callAt i = some (call, .over id slot outcome)) :
    ∃ before m after heard, moves = before ++ m :: after ∧
      (c.run before).Decides i id slot heard m outcome := by
  obtain ⟨start, since, rfl, henters⟩ := exists_enters hmatched.numbered hnone hcall rfl
  have hstart : (c.run start).Matched := by
    apply hmatched.run
    rw [run_append] at hdrawn
    exact Nat.lt_of_le_of_lt (slots_length_le_run (hmatched.numbered.run start) _) hdrawn
  rw [run_append, run_cons] at hdrawn hcall
  have htrace := henters.trace hstart hdrawn hcall rfl
  cases htrace with
  | ended hdecided =>
      obtain ⟨mid, m, after, rfl, hdecides⟩ := hdecided
      refine ⟨start ++ .advance i :: mid, m, after,
        ((c.run start).move (.advance i)).replies mid, by simp, ?_⟩
      rw [run_append, run_cons]
      exact hdecides
  | unheard hlistened => cases hlistened
  | given hlistened => cases hlistened

/-- As long as the ids last, calls about listeners that are served do not fail. -/
theorem grants_of_obliges (hmatched : c.Matched) (hnone : ∀ i, c.callAt i = none)
    {moves : List Move} (hdrawn : (c.run moves).table.slots.length < UInt64.size)
    (hobliges : c.Throughout Obliges moves) : c.Throughout Grants moves := by
  have hnumbered := hmatched.numbered
  apply Throughout.of_split
  rintro before m after rfl
  cases m with
  | advance i =>
      intro work hwork hlisteners
      by_contra hfailed
      obtain ⟨change, id, slot, f, rfl⟩ : ∃ change id slot f,
          work = .change change (.calling (.over id slot (.error f))) := by
        rw [Bool.not_eq_false] at hfailed
        unfold Work.hasFailed at hfailed
        split at hfailed
        · exact ⟨_, _, _, _, rfl⟩
        · cases hfailed
      have hcall : (c.run before).callAt i =
          some ((c.run before).changeCall change, .over id slot (.error f)) := by
        rw [callAt, hwork]
        rfl
      have hget := get?_of_workAt hlisteners hwork
      have hroom : (c.run before).table.slots.length < UInt64.size := by
        rw [run_append] at hdrawn
        exact Nat.lt_of_le_of_lt (slots_length_le_run (hnumbered.run before) _) hdrawn
      obtain ⟨earlier, m, later, heard, rfl, hdecides⟩ := exists_decided hmatched hnone hroom hcall
      rw [List.append_assoc, List.cons_append] at hobliges
      -- The job has been for the same change all the time.
      refine hobliges.split.not_decides hlisteners (fun call stage hcall => ?_) hdecides
      obtain ⟨job, hjob⟩ := exists_job_of_callAt hcall
      rw [run_append] at hget
      obtain ⟨stage', rfl⟩ := eq_change_of_change?
        ((inherits_run (hnumbered.run earlier) _).change?_eq (hnumbered.run earlier) hjob hget).symm
      rw [hjob, calling_of_callAt hjob hcall]
  | drop i => exact hobliges.split.2
  | _ => trivial

/-- In a run, the client and the platform agree about who listens.  The platform is asked for the
notices of an event and for no more of them by turns, for them first; and unless somebody is asking
about the event, what was asked last is whether it has listeners. -/
structure InAgreement (c : Client) (moves : List Move) : Prop where
  alternates : ∀ event, (false :: c.askedIn event moves).IsChain (· ≠ ·)
  settled : ∀ event,
    (∀ i change stage, ¬(c.run moves).AsksAbout event i change stage) →
    c.lastAsked event moves = (c.run moves).isSubscribed event
  counted : ∀ event,
    (c.run moves).isSubscribed event = decide (0 < (c.run moves).listenerCount event)

/-- Client and platform agree about who listens if every call about listeners is granted.  It is, as
long as the ids last, if the platform answers it with a success in time and the link takes it. -/
theorem in_agreement (settings : Settings) (link : Link) (moves : List Move) :
    (((ofSettings settings link).run moves).table.slots.length < UInt64.size →
      (ofSettings settings link).Throughout Obliges moves →
      (ofSettings settings link).Throughout Grants moves) ∧
    ((ofSettings settings link).Throughout Grants moves →
      (ofSettings settings link).InAgreement moves) := by
  have hmatched := Matched.ofSettings settings link
  have hnumbered := hmatched.numbered
  have htidy := Tidy.ofSettings settings link
  refine ⟨fun hdrawn hobliges => grants_of_obliges hmatched (fun _ => rfl) hdrawn hobliges,
    fun hgrants => ?_⟩
  have hstart : ∀ event, (ofSettings settings link).Accord event false := by
    intro event
    apply Accord.of_idle ?_ rfl
    rintro i change stage ⟨hwork, -⟩
    cases hwork
  have hrun := fun event => (hstart event).run hnumbered htidy (.ofSettings settings link)
    (.ofSettings settings link) hgrants
  exact ⟨fun event => (hrun event).1, fun event => (hrun event).2.idle,
    (htidy.run hnumbered moves).isSubscribed_eq⟩

/-- A listener comes and goes, and the platform is asked about it and grants it both times. -/
theorem in_agreement_round :
    let event := "device.onNameChanged"
    let moves : List Move :=
      [.begin (.change (.subscribe event ⟨"name", .anything, .nothing⟩))] ++
        [0, 0, 0, 0, 0].map Move.advance ++ [.deliver "\x7b\"id\":1,\"result\":null\x7d" true] ++
        [0, 0, 0, 0].map Move.advance ++ [.begin (.change (.unsubscribe event 1))] ++
        [1, 1, 1, 1, 1].map Move.advance ++ [.deliver "\x7b\"id\":2,\"result\":null\x7d" true] ++
        [1, 1, 1, 1].map Move.advance
    let client := ofSettings {} (.direct .up)
    client.Throughout Obliges moves ∧ client.askedIn event moves = [true, false] ∧
      client.InAgreement moves :=
  ⟨by decide +kernel, by decide +kernel, (in_agreement {} (.direct .up) _).2
    ((in_agreement {} (.direct .up) _).1 (by decide +kernel) (by decide +kernel))⟩

end Client

end GatewayClient
