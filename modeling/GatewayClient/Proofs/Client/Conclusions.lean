/-
What a change of who provides concludes with.  Whether the platform is asked depends on the handler
that the event has when the change begins; what is returned, what has been asked and the handler
that is left depend on each other.  So do those of changes made one after the other, of which the
record is a history.
-/
import GatewayClient.Proofs.Client.ProviderLifecycle
import GatewayClient.Proofs.Client.Sparing
import Mathlib.Logic.Function.Basic

namespace GatewayClient

/-- Who provides for each event, if anybody. -/
abbrev Standing := String → Option Handler

/-- Those of some handlers whose events have none yet. -/
def Standing.newly (before : Standing) (entries : List (String × Handler)) :
    List (String × Handler) :=
  entries.filter fun entry => !(before entry.1).isSome

namespace CallStage

/-- A call that has brought its frame to the link, and whether the link has taken it. -/
inductive Brought : Bool → CallStage → Prop
  | waiting {id : UInt64} {slot deadline : Nat} : Brought true (.waiting id slot deadline)
  | overdue {id : UInt64} {slot : Nat} : Brought true (.overdue id slot)
  | taken {id : UInt64} {slot : Nat} {outcome : Outcome} : Brought true (.over id slot outcome)
  | refused {id : UInt64} {slot : Nat} : Brought false (.over id slot (.error .notConnected))

/-- Whether the link takes the frame of a call, if the call brings it and has not to wait with the
step between two stages. -/
def brings? (before after : CallStage) : Option Bool :=
  match before.unsent?, after with
  | some _, .waiting _ _ _ => some true
  | some _, .over _ _ _ => some false
  | _, _ => none

end CallStage

namespace ChangeStage

/-- Whether the link takes the request of a change, if the change brings it with the step between
two stages. -/
def brings? : ChangeStage → ChangeStage → Option Bool
  | .calling before, .calling after => before.brings? after
  | _, _ => none

end ChangeStage

namespace Change

/-- Whether the platform has to be asked about a change of a handler, by the one there is before. -/
def Asks : Change → Option Handler → Prop
  | .provide _ _, was => was = none
  | .revoke _, was => was ≠ none
  | .subscribe _ _, _ | .unsubscribe _ _, _ => False

/-- The handler that is there once a change of it has been made. -/
def leaves? : Change → Option Handler
  | .provide _ handler => some handler
  | .revoke _ | .subscribe _ _ | .unsubscribe _ _ => none

/-- What a change of a handler concludes with where there is the handler `was`: its result, whether
the link has taken its request if there was one, and the handler that is there then.  The platform
need not be asked, or it has agreed, or it has not. -/
inductive Concludes (change : Change) (was : Option Handler) :
    Except Failure Changed → Option Bool → Option Handler → Prop
  | idle {changed : Changed} (hidle : ¬change.Asks was) (hcomes : change.ComesTo false changed) :
    Concludes change was (.ok changed) none change.leaves?
  | agreed {changed : Changed} (hasks : change.Asks was) (hcomes : change.ComesTo true changed) :
    Concludes change was (.ok changed) (some true) change.leaves?
  | failed {f : Failure} {taken : Bool} (hasks : change.Asks was) :
    Concludes change was (.error f) (some taken) none

/-- How far a change of a handler is that has begun where there was the handler `was`: its stage,
whether the link has taken its request if it has brought it, and the handler there is. -/
inductive Along (change : Change) (was : Option Handler) :
    ChangeStage → Option Bool → Option Handler → Prop
  | early {stage : ChangeStage} (hrank : stage.rank ≤ 2) : Along change was stage none was
  | asking {stage : CallStage} (hasks : change.Asks was)
    (hunsent : stage = .fresh ∨ stage.unsent? ≠ none) : Along change was (.calling stage) none none
  | asked {stage : CallStage} {taken : Bool} (hasks : change.Asks was)
    (hbrought : stage.Brought taken) : Along change was (.calling stage) (some taken) none
  | concluded {stage : ChangeStage} {result : Except Failure Changed} {request : Option Bool}
    {now : Option Handler} (h : change.Concludes was result request now)
    (hstage : stage = .releasing result ∨ stage = .pruning result) :
    Along change was stage request now

end Change

namespace Client

variable {c c' : Client} {i : JobId} {change : Change} {stage stage' : ChangeStage}
  {was : Option Handler} {request : Option Bool} {event : String}

/-- A step of a change leaves the handlers of other events alone. -/
theorem ChangeStep.get?_providers (h : ChangeStep c i change stage c' stage')
    (hother : event ≠ change.event) : c'.providers.get? event = c.providers.get? event := by
  have hnot : ¬(change.ofListeners = false ∧ change.event = event) := fun h => hother h.2.symm
  have hroll : c'.roll = c.roll → c'.providers.get? event = c.providers.get? event := fun h => by
    rw [show c'.providers = c.providers from congrArg Roll.providers h]
  cases h with
  | refer | join => exact hroll (roll_setGatesOf c change _)
  | enter howns => exact (get?_providers_of_other hnot).1
  | call hmoved =>
      obtain ⟨table, sent, -, hhands⟩ := stepCall_moved hmoved
      exact hroll hhands.roll
  | @settle stage client value hover =>
      obtain ⟨table, hhands⟩ := hands_of_over hover
      rw [(get?_providers_of_other hnot).2,
        show client.providers = c.providers from congrArg Roll.providers hhands.roll]
  | fail hover =>
      obtain ⟨table, hhands⟩ := hands_of_over hover
      exact hroll hhands.roll
  | release => exact hroll ((roll_wakeOption _ _).trans (roll_setGatesOf c change _))

/-- A change sends nothing but the request that it brings. -/
theorem ChangeStep.brings_of_sent (h : ChangeStep c i change stage c' stage')
    (hsent : c'.sent ≠ c.sent) : stage.brings? stage' = some true := by
  cases h with
  | refer | join => exact absurd (Rearranges.setGatesOf c change _).sent hsent
  | enter => exact absurd (Rearranges.enterChange c change).sent hsent
  | call hmoved =>
      obtain ⟨table, sent, hcall, link, ready, rfl⟩ := stepCall_moved hmoved
      cases hcall with
      | hand hunsent => simp [ChangeStage.brings?, CallStage.brings?, hunsent]
      | enter | queue | refuse | take | miss | expire | cancel => exact absurd rfl hsent
  | @settle _ client _ hover =>
      obtain ⟨table, link, ready, rfl⟩ := hands_of_over hover
      exact absurd (Rearranges.settleChange _ change).sent hsent
  | fail hover =>
      obtain ⟨table, link, ready, rfl⟩ := hands_of_over hover
      exact absurd rfl hsent
  | release =>
      exact absurd ((Rearranges.wakeOption _ _).sent.trans
        (Rearranges.setGatesOf c change _).sent) hsent

/-- A step of a change that touches no handler leaves that of its event. -/
theorem get?_providers_of_roll (h : c'.roll = c.roll) :
    c'.providers.get? event = c.providers.get? event := by
  rw [show c'.providers = c.providers from congrArg Roll.providers h]

end Client

namespace CallStage

variable {c : Client} {call : Call} {stage stage' : CallStage} {table : Table} {sent : List Json}
  {taken : Bool}

/-- A call that has yet to bring its frame does so with a step, or has still to. -/
theorem brings?_of_unsent (h : Client.CallStep c call stage table sent stage')
    (hunsent : stage = .fresh ∨ stage.unsent? ≠ none) :
    (stage.brings? stage' = none ∧ stage'.unsent? ≠ none) ∨
      ∃ taken, stage.brings? stage' = some taken ∧ stage'.Brought taken := by
  cases h with
  | enter hparams => exact .inl ⟨rfl, Option.some_ne_none _⟩
  | queue => exact .inl ⟨rfl, Option.some_ne_none _⟩
  | hand hsome hentry => exact .inr ⟨true, by simp [brings?, hsome], .waiting⟩
  | refuse hsome hentry => exact .inr ⟨false, by simp [brings?, hsome], .refused⟩
  | take | miss | expire | cancel => rcases hunsent with hfresh | hsome <;> contradiction

/-- One that has brought its frame does not do so again. -/
theorem brings?_of_brought (h : Client.CallStep c call stage table sent stage')
    (hbrought : stage.Brought taken) : stage.brings? stage' = none ∧ stage'.Brought taken := by
  cases hbrought with
  | waiting =>
      cases h with
      | hand hsome | refuse hsome => cases hsome
      | take | miss => exact ⟨rfl, .taken⟩
      | expire => exact ⟨rfl, .overdue⟩
  | overdue =>
      cases h with
      | hand hsome | refuse hsome => cases hsome
      | cancel => exact ⟨rfl, .taken⟩
  | taken | refused =>
      cases h with
      | hand hsome | refuse hsome => cases hsome

end CallStage

/-- A request that the link takes is that of a call which then waits for its reply. -/
theorem ChangeStage.of_brings_true {stage stage' : ChangeStage}
    (h : stage.brings? stage' = some true) :
    ∃ before id id' slot deadline, stage = .calling before ∧ before.unsent? = some id ∧
      stage' = .calling (.waiting id' slot deadline) := by
  cases stage with
  | calling before =>
      cases stage' with
      | calling after =>
          rw [brings?] at h
          unfold CallStage.brings? at h
          split at h
          · next hunsent => exact ⟨before, _, _, _, _, rfl, hunsent, rfl⟩
          · cases h
          · cases h
      | fresh | referring | atGate | releasing | pruning => cases h
  | fresh | referring | atGate | releasing | pruning => cases h

namespace Change.Along

variable {c c' : Client} {i : JobId} {change : Change} {stage stage' : ChangeStage}
  {was : Option Handler} {request : Option Bool}

variable {now : Option Handler} {result : Except Failure Changed}

/-- Before it is through its gate, a change of a handler has done nothing. -/
theorem of_rank (h : change.Along was stage request now) (hrank : stage.rank ≤ 2) :
    request = none ∧ now = was := by
  cases h with
  | early => exact ⟨rfl, rfl⟩
  | asking | asked => exact absurd hrank (by simp [ChangeStage.rank])
  | concluded _ hstage =>
      rcases hstage with rfl | rfl <;> exact absurd hrank (by simp [ChangeStage.rank])

/-- In its call, it is being asked about and there is no handler. -/
theorem of_calling {stage : CallStage} (h : change.Along was (.calling stage) request now) :
    change.Asks was ∧ now = none ∧
      ((request = none ∧ (stage = .fresh ∨ stage.unsent? ≠ none)) ∨
        ∃ taken, request = some taken ∧ stage.Brought taken) := by
  cases h with
  | early hrank => exact absurd hrank (by simp [ChangeStage.rank])
  | asking hasks hunsent => exact ⟨hasks, rfl, .inl ⟨rfl, hunsent⟩⟩
  | asked hasks hbrought => exact ⟨hasks, rfl, .inr ⟨_, rfl, hbrought⟩⟩
  | concluded _ hstage => rcases hstage with hstage | hstage <;> cases hstage

/-- After it, it has concluded. -/
theorem of_result (h : change.Along was stage request now)
    (hstage : stage = .releasing result ∨ stage = .pruning result) :
    change.Concludes was result request now := by
  cases h with
  | early hrank =>
      rcases hstage with rfl | rfl <;> exact absurd hrank (by simp [ChangeStage.rank])
  | asking | asked => rcases hstage with hstage | hstage <;> cases hstage
  | concluded hconcludes hstage' =>
      rcases hstage with rfl | rfl <;> rcases hstage' with heq | heq <;> cases heq <;>
        exact hconcludes

/-- What a change of a handler does on going through its gate. -/
theorem of_enter (c : Client) (hkind : change.ofListeners = false) :
    change.Along (c.providers.get? change.event) (c.enterChange change).2 none
      ((c.enterChange change).1.providers.get? change.event) := by
  have hnone : ∀ event, c.providers.get? event = none → c.isProvided event = false := by
    intro event hget
    rw [Client.isProvided, Dictionary.contains, hget]
    rfl
  cases change with
  | subscribe | unsubscribe => cases hkind
  | provide event handler =>
      change Along _ (c.providers.get? event) _ _ (Dictionary.get? _ event)
      cases hget : c.providers.get? event with
      | none =>
          rw [Client.enterChange_provide_none handler (hnone event hget), hget]
          exact .asking rfl (.inl rfl)
      | some old =>
          rw [Client.enterChange_provide_stored handler (Client.isProvided_of_get? hget),
            Dictionary.get?_put_self]
          exact .concluded (.idle (Option.some_ne_none old) .replaced) (.inl rfl)
  | revoke event =>
      change Along _ (c.providers.get? event) _ _ (Dictionary.get? _ event)
      cases hget : c.providers.get? event with
      | none =>
          rw [Client.enterChange_revoke_none (hnone event hget), hget]
          exact .concluded (.idle (fun hasks => hasks rfl) .unknown) (.inl rfl)
      | some old =>
          rw [Client.enterChange_revoke_stored (Client.isProvided_of_get? hget),
            Dictionary.get?_erase_self]
          exact .asking (Option.some_ne_none old) (.inl rfl)

/-- What the platform's agreement leads to. -/
theorem of_settle (c : Client) (hkind : change.ofListeners = false) (hasks : change.Asks was)
    (hnow : c.providers.get? change.event = none) :
    change.Along was (.releasing (.ok (c.settleChange change).2)) (some true)
      ((c.settleChange change).1.providers.get? change.event) := by
  have hcomes : change.ComesTo true (c.settleChange change).2 := by
    cases change with
    | subscribe | unsubscribe => cases hkind
    | provide => exact .registered
    | revoke => exact .revoked
  have hleaves : (c.settleChange change).1.providers.get? change.event = change.leaves? := by
    cases change with
    | subscribe | unsubscribe => cases hkind
    | provide event handler => exact Dictionary.get?_put_self _ _ _
    | revoke => exact hnow
  rw [hleaves]
  exact .concluded (.agreed hasks hcomes) (.inl rfl)

/-- A step of a change of a handler. -/
theorem step (hkind : change.ofListeners = false)
    (h : change.Along was stage request (c.providers.get? change.event))
    (hstep : Client.ChangeStep c i change stage c' stage') :
    ∃ request', change.Along was stage' request' (c'.providers.get? change.event) ∧
      request'.toList = request.toList ++ (stage.brings? stage').toList := by
  cases hstep with
  | refer | join =>
      obtain ⟨rfl, rfl⟩ := h.of_rank (by decide)
      refine ⟨none, ?_, rfl⟩
      rw [Client.get?_providers_of_roll (Client.roll_setGatesOf c change _)]
      exact .early (by decide)
  | enter howns =>
      obtain ⟨rfl, rfl⟩ := h.of_rank (by decide)
      exact ⟨none, of_enter c hkind, rfl⟩
  | @call stage stage' _ hmoved =>
      obtain ⟨table, sent, hcall, hhands⟩ := Client.stepCall_moved hmoved
      obtain ⟨hasks, hnow, ⟨rfl, hunsent⟩ | ⟨taken, rfl, hbrought⟩⟩ := h.of_calling
      · rw [Client.get?_providers_of_roll hhands.roll, hnow]
        rcases CallStage.brings?_of_unsent hcall hunsent with
          ⟨hbrings, hunsent'⟩ | ⟨taken, hbrings, hbrought⟩
        · exact ⟨none, .asking hasks (.inr hunsent'), by rw [ChangeStage.brings?, hbrings]; rfl⟩
        · exact ⟨some taken, .asked hasks hbrought, by rw [ChangeStage.brings?, hbrings]; rfl⟩
      · rw [Client.get?_providers_of_roll hhands.roll, hnow]
        obtain ⟨hbrings, hbrought'⟩ := CallStage.brings?_of_brought hcall hbrought
        exact ⟨some taken, .asked hasks hbrought', by rw [ChangeStage.brings?, hbrings]; rfl⟩
  | settle hover =>
      obtain ⟨hasks, hnow, hrequest⟩ := h.of_calling
      obtain ⟨id, slot, rfl, rfl⟩ := Client.calling_over hover
      obtain ⟨-, hfresh | hunsent⟩ | ⟨taken, rfl, hbrought⟩ := hrequest
      · cases hfresh
      · exact absurd rfl hunsent
      · cases hbrought
        exact ⟨some true, of_settle _ hkind hasks hnow, rfl⟩
  | fail hover =>
      obtain ⟨hasks, hnow, hrequest⟩ := h.of_calling
      obtain ⟨id, slot, rfl, rfl⟩ := Client.calling_over hover
      obtain ⟨-, hfresh | hunsent⟩ | ⟨taken, rfl, hbrought⟩ := hrequest
      · cases hfresh
      · exact absurd rfl hunsent
      · refine ⟨some taken, ?_, rfl⟩
        rw [show _ = none from hnow]
        exact .concluded (.failed hasks) (.inl rfl)
  | release =>
      refine ⟨request, ?_, (List.append_nil _).symm⟩
      rw [Client.get?_providers_of_roll
        ((Client.roll_wakeOption _ _).trans (Client.roll_setGatesOf c change _))]
      exact .concluded (h.of_result (.inl rfl)) (.inr rfl)

end Change.Along

namespace Change.Concludes

variable {event : String} {handler : Handler} {was now : Option Handler} {request : Option Bool}

/-- A provision that succeeds. -/
theorem of_provide {changed : Changed}
    (h : (Change.provide event handler).Concludes was (.ok changed) request now) :
    changed = (if was.isSome then .replaced else .registered) ∧
      request = (if was.isSome then none else some true) ∧ now = some handler := by
  cases h with
  | idle hidle hcomes =>
      have hsome : was.isSome = true := Option.isSome_iff_ne_none.mpr hidle
      cases hcomes
      simp [hsome, Change.leaves?]
  | agreed hasks hcomes =>
      obtain rfl : was = none := hasks
      cases hcomes
      simp [Change.leaves?]

/-- One that does not had no handler to replace, and leaves none. -/
theorem of_refused {f : Failure}
    (h : (Change.provide event handler).Concludes was (.error f) request now) :
    was = none ∧ now = none ∧ ∃ taken, request = some taken := by
  cases h with
  | failed hasks => exact ⟨hasks, rfl, _, rfl⟩

/-- A revocation of a handler that is there. -/
theorem of_revoke {result : Except Failure Changed}
    (h : (Change.revoke event).Concludes was result request now) (hthere : was ≠ none) :
    now = none ∧ ∃ taken, request = some taken := by
  cases h with
  | idle hidle => exact absurd hthere hidle
  | agreed => exact ⟨rfl, _, rfl⟩
  | failed => exact ⟨rfl, _, rfl⟩

end Change.Concludes

/-- A change that has been made: what came of it, and whether the link has taken its request if
there was one. -/
structure Made where
  change : Change
  result : Except Failure Changed
  request : Option Bool

namespace Made

/-- The change and what came of it. -/
def conclusion (x : Made) : Change × Except Failure Changed :=
  (x.change, x.result)

/-- The request of the change, with whether the link has taken it. -/
def asked (x : Made) : List (Change × Bool) :=
  x.request.toList.map fun taken => (x.change, taken)

/-- The event of a handler that has been registered. -/
def registered? : Made → Option String
  | ⟨change, .ok .registered, _⟩ => some change.event
  | _ => none

/-- The provision of a handler that succeeds, by who provides before it. -/
def ofProvision (before : Standing) (entry : String × Handler) : Made where
  change := .provide entry.1 entry.2
  result := .ok (if (before entry.1).isSome then .replaced else .registered)
  request := if (before entry.1).isSome then none else some true

theorem asked_ofProvision (before : Standing) (entries : List (String × Handler)) :
    (entries.map (ofProvision before)).flatMap asked =
      (before.newly entries).map fun entry => (.provide entry.1 entry.2, true) := by
  induction entries with
  | nil => rfl
  | cons entry rest ih =>
      rw [List.map_cons, List.flatMap_cons, ih, Standing.newly, Standing.newly, List.filter_cons,
        ofProvision]
      cases (before entry.1).isSome <;> rfl

theorem registered_ofProvision (before : Standing) (entries : List (String × Handler)) :
    (entries.map (ofProvision before)).filterMap registered? =
      (before.newly entries).map Prod.fst := by
  induction entries with
  | nil => rfl
  | cons entry rest ih =>
      rw [List.map_cons, List.filterMap_cons, ih, Standing.newly, Standing.newly,
        List.filter_cons, ofProvision]
      cases (before entry.1).isSome <;> rfl

end Made

/-- Changes of handlers that are made one after the other, and who provides before and after. -/
inductive History (before : Standing) : List Made → Standing → Prop
  | nil : History before [] before
  | concat {past : List Made} {p : Standing} {x : Made} {now : Option Handler}
    (h : History before past p)
    (hlast : x.change.Concludes (p x.change.event) x.result x.request now) :
    History before (past ++ [x]) (Function.update p x.change.event now)

namespace History

variable {before p : Standing} {past : List Made}

/-- A history goes on from where its first part has led. -/
theorem split (h : History before past p) :
    ∀ {first second : List Made}, past = first ++ second →
      ∃ q, History before first q ∧ History q second p := by
  induction h with
  | nil =>
      intro first second heq
      obtain ⟨rfl, rfl⟩ := List.append_eq_nil_iff.mp heq.symm
      exact ⟨before, .nil, .nil⟩
  | @concat past p x now h hlast ih =>
      intro first second heq
      rcases List.eq_nil_or_concat second with rfl | ⟨second, y, rfl⟩
      · rw [List.append_nil] at heq
        exact ⟨_, heq ▸ .concat h hlast, .nil⟩
      · rw [List.concat_eq_append, ← List.append_assoc] at heq
        obtain ⟨rfl, hx⟩ := List.append_inj' heq rfl
        cases hx
        obtain ⟨q, hfirst, hsecond⟩ := ih rfl
        exact ⟨q, hfirst, List.concat_eq_append ▸ .concat hsecond hlast⟩

/-- What a history ends with. -/
theorem last {x : Made} (h : History before (past ++ [x]) p) :
    ∃ q now, History before past q ∧
      x.change.Concludes (q x.change.event) x.result x.request now ∧
      p = Function.update q x.change.event now := by
  generalize hall : past ++ [x] = all at h
  cases h with
  | nil => exact absurd hall (List.append_ne_nil_of_right_ne_nil past (List.cons_ne_nil x []))
  | concat h hlast =>
      obtain ⟨rfl, hx⟩ := List.append_inj' hall rfl
      cases hx
      exact ⟨_, _, h, hlast, rfl⟩

/-- Provisions that all succeed give each event its new handler; which of them have been registered
depends on who provided before. -/
theorem provisions (h : History before past p) {handlers : List (String × Handler)}
    (hpast : past.map Made.change = handlers.map fun entry => .provide entry.1 entry.2)
    (hok : ∀ x ∈ past, ∃ changed, x.result = .ok changed)
    (hdistinct : (handlers.map Prod.fst).Nodup) :
    past = handlers.map (Made.ofProvision before) ∧
      (∀ entry ∈ handlers, p entry.1 = some entry.2) ∧
      ∀ event ∉ handlers.map Prod.fst, p event = before event := by
  induction h generalizing handlers with
  | nil =>
      obtain rfl := List.map_eq_nil_iff.mp hpast.symm
      exact ⟨rfl, by simp, by simp⟩
  | @concat past p x now h hlast ih =>
      obtain ⟨handlers, last, rfl, hprior, hx⟩ :=
        List.map_eq_append_iff.mp (hpast.symm.trans List.map_append)
      obtain ⟨⟨event, handler⟩, rfl, hchange⟩ := List.map_eq_singleton_iff.mp hx
      obtain ⟨changed, hresult⟩ := hok x (List.mem_append_right _ (List.mem_singleton_self x))
      obtain ⟨change, result, request⟩ := x
      obtain rfl : Change.provide event handler = change := hchange
      obtain rfl : result = .ok changed := hresult
      rw [List.map_append, List.nodup_append] at hdistinct
      have hfresh : event ∉ handlers.map Prod.fst := fun hmem =>
        hdistinct.2.2 event hmem event (List.mem_singleton_self event) rfl
      obtain ⟨hmade, hstored, hothers⟩ :=
        ih hprior.symm (fun x hx => hok x (List.mem_append_left _ hx)) hdistinct.1
      have hconcludes : (Change.provide event handler).Concludes (before event) (.ok changed)
          request now := hothers event hfresh ▸ hlast
      obtain ⟨rfl, rfl, rfl⟩ := hconcludes.of_provide
      refine ⟨?_, fun entry hentry => ?_, fun other hother => ?_⟩
      · rw [List.map_append, ← hmade]
        rfl
      · rcases List.mem_append.mp hentry with hmem | hmem
        · have hne : entry.1 ≠ event := fun heq => hfresh (heq ▸ List.mem_map_of_mem hmem)
          exact (Function.update_of_ne hne _ _).trans (hstored entry hmem)
        · obtain rfl := List.mem_singleton.mp hmem
          exact Function.update_self _ _ _
      · rw [List.map_append, List.mem_append, not_or] at hother
        have hne : other ≠ event := fun heq => hother.2 (heq ▸ List.mem_singleton_self event)
        exact (Function.update_of_ne hne _ _).trans (hothers other hother.1)

/-- Revocations of handlers that are there take each of them away, whatever the platform says, and
each asks it once. -/
theorem revocations (h : History before past p) {events : List String}
    (hpast : past.map Made.change = events.map .revoke) (hdistinct : events.Nodup)
    (hthere : ∀ event ∈ events, before event ≠ none) :
    (∀ event ∈ events, p event = none) ∧ (∀ event ∉ events, p event = before event) ∧
      (past.flatMap Made.asked).map Prod.fst = events.map .revoke := by
  induction h generalizing events with
  | nil =>
      obtain rfl := List.map_eq_nil_iff.mp hpast.symm
      exact ⟨by simp, by simp, rfl⟩
  | @concat past p x now h hlast ih =>
      obtain ⟨events, last, rfl, hprior, hx⟩ :=
        List.map_eq_append_iff.mp (hpast.symm.trans List.map_append)
      obtain ⟨event, rfl, hchange⟩ := List.map_eq_singleton_iff.mp hx
      obtain ⟨change, result, request⟩ := x
      obtain rfl : Change.revoke event = change := hchange
      rw [List.nodup_append] at hdistinct
      have hfresh : event ∉ events := fun hmem =>
        hdistinct.2.2 event hmem event (List.mem_singleton_self event) rfl
      obtain ⟨hgone, hothers, hasked⟩ := ih hprior.symm hdistinct.1
        fun other hother => hthere other (List.mem_append_left _ hother)
      have hstored : p event ≠ none := hothers event hfresh ▸
        hthere event (List.mem_append_right _ (List.mem_singleton_self event))
      obtain ⟨rfl, taken, rfl⟩ := hlast.of_revoke hstored
      refine ⟨fun other hother => ?_, fun other hother => ?_, ?_⟩
      · rcases List.mem_append.mp hother with hmem | hmem
        · have hne : other ≠ event := fun heq => hfresh (heq ▸ hmem)
          exact (Function.update_of_ne hne _ _).trans (hgone other hmem)
        · obtain rfl := List.mem_singleton.mp hmem
          exact Function.update_self _ _ _
      · rw [List.mem_append, not_or] at hother
        have hne : other ≠ event := fun heq => hother.2 (heq ▸ List.mem_singleton_self event)
        exact (Function.update_of_ne hne _ _).trans (hothers other hother.1)
      · rw [List.flatMap_append, List.map_append, List.map_append, hasked]
        rfl

/-- When a provision is refused after others have succeeded, and those that were registered are
revoked, the events of these have no handler, the other new handlers stay, and all other events are
as before. -/
theorem refused {withdrawn : List Made} {done : List (String × Handler)}
    {entry : String × Handler} {f : Failure} {request : Option Bool}
    (h : History before
      (past ++ ⟨.provide entry.1 entry.2, .error f, request⟩ :: withdrawn) p)
    (hpast : past.map Made.change = done.map fun entry => .provide entry.1 entry.2)
    (hok : ∀ x ∈ past, ∃ changed, x.result = .ok changed)
    (hwithdrawn : withdrawn.map Made.change = (past.filterMap Made.registered?).map .revoke)
    (hdistinct : (done.map Prod.fst).Nodup) (hnew : entry.1 ∉ done.map Prod.fst) :
    past = done.map (Made.ofProvision before) ∧ before entry.1 = none ∧
      (∃ taken, request = some taken) ∧
      (withdrawn.flatMap Made.asked).map Prod.fst = withdrawn.map Made.change ∧
      (∀ entry ∈ done, p entry.1 = if (before entry.1).isSome then some entry.2 else none) ∧
      ∀ event ∉ done.map Prod.fst, p event = before event := by
  rw [List.append_cons] at h
  obtain ⟨q', hfirst, hsecond⟩ := h.split rfl
  obtain ⟨q, now, hprior, hrefused, hq'⟩ := hfirst.last
  obtain ⟨rfl, hstored, hothers⟩ := hprior.provisions hpast hok hdistinct
  obtain ⟨hunprovided, rfl, hasked⟩ := hrefused.of_refused
  -- The refused provision has left all as it was.
  obtain rfl : q' = q := hq'.trans (Function.update_eq_self_iff.mpr hunprovided.symm)
  rw [Made.registered_ofProvision] at hwithdrawn
  have hsublist : ((before.newly done).map Prod.fst).Sublist (done.map Prod.fst) :=
    List.filter_sublist.map Prod.fst
  obtain ⟨hgone, hkept, hrevoked⟩ :=
    hsecond.revocations hwithdrawn (hsublist.nodup hdistinct) <| by
      intro event hevent
      obtain ⟨entry, hmem, rfl⟩ := List.mem_map.mp (hsublist.subset hevent)
      exact (hstored entry hmem).trans_ne (Option.some_ne_none _)
  refine ⟨rfl, (hothers entry.1 hnew).symm.trans hunprovided, hasked,
    hrevoked.trans hwithdrawn.symm, fun entry hmem => ?_, fun event hevent => ?_⟩
  · cases hbefore : (before entry.1).isSome with
    | true =>
        rw [hkept, hstored entry hmem]
        · rfl
        · intro hrevoke
          obtain ⟨other, hother, heq⟩ := List.mem_map.mp hrevoke
          have hfree := (List.mem_filter.mp hother).2
          rw [heq, hbefore] at hfree
          cases hfree
    | false =>
        apply hgone
        exact List.mem_map_of_mem (List.mem_filter.mpr ⟨hmem, by rw [hbefore]; rfl⟩)
  · exact (hkept event fun hmem => hevent (hsublist.subset hmem)).trans (hothers event hevent)

end History

end GatewayClient
