/-
The life of a registration.  A handler is registered with the platform by whoever finds that the
event has none, replaced without a word by whoever finds one, and taken away before the platform is
told; changes of one event's handler take turns at their gate.  So registrations and removals of an
event alternate, whatever the platform answers and wherever the jobs are given up.
-/
import GatewayClient.Proofs.Client.Acknowledged
import GatewayClient.Proofs.Client.Passing

namespace GatewayClient

namespace Client

variable {c c' : Client} {i j : JobId} {m : Move} {change change' : Change} {event : String}
  {handler : Handler} {moves : List Move}

/-- Whether the platform has to know of a change of who provides: there is no handler for one that
comes, or there is one that goes. -/
def Registers (c : Client) : Change → Prop
  | .provide event _ => c.isProvided event = false
  | .revoke event => c.isProvided event = true
  | .subscribe _ _ | .unsubscribe _ _ => False

/-- The platform is called about the handler of an event only while the event has none. -/
def Unprovided (c : Client) : Prop :=
  ∀ i change stage, c.workAt i = some (.change change (.calling stage)) →
    change.ofListeners = false → c.isProvided change.event = false

/-- The job `i` is in its call about a handler at the end of the moves, since it went through its
gate and found that the platform has to know; there has been no handler since. -/
def Registering (c : Client) (moves : List Move) (i : JobId) (change : Change) : Prop :=
  ∃ before since, moves = before ++ .advance i :: since ∧
    (c.run before).passes? (.advance i) = some change ∧ (c.run before).Registers change ∧
    ∀ mid, mid <+: since →
      (∃ stage, (c.run (before ++ .advance i :: mid)).workAt i =
        some (.change change (.calling stage))) ∧
      (c.run (before ++ .advance i :: mid)).isProvided change.event = false

/-- Whether a move registers a handler for an event. -/
def registers? (c : Client) (event : String) (m : Move) : Bool :=
  match c.settles? m with
  | some (.provide event' _, .registered) => event' = event
  | _ => false

/-- Whether a move takes a handler away from an event. -/
def removes? (c : Client) (event : String) (m : Move) : Bool :=
  decide (c.passes? m = some (.revoke event)) && c.isProvided event

/-- How many moves of a run register a handler for an event. -/
def registrations (c : Client) (event : String) : List Move → Nat
  | [] => 0
  | m :: rest => (c.registers? event m).toNat + registrations (c.move m) event rest

/-- How many moves of a run take a handler away from an event. -/
def removals (c : Client) (event : String) : List Move → Nat
  | [] => 0
  | m :: rest => (c.removes? event m).toNat + removals (c.move m) event rest

theorem isProvided_congr (h : c'.providers.get? event = c.providers.get? event) :
    c'.isProvided event = c.isProvided event := by
  rw [isProvided, Dictionary.contains, h, isProvided, Dictionary.contains]

theorem isProvided_of_get? (h : c.providers.get? event = some handler) :
    c.isProvided event = true := by
  rw [isProvided, Dictionary.contains, h]
  rfl

theorem enterChange_provide_stored (handler : Handler) (h : c.isProvided event = true) :
    c.enterChange (.provide event handler) =
      ({ c with providers := c.providers.put event handler }, .releasing (.ok .replaced)) := by
  rw [enterChange, if_pos h]

theorem enterChange_provide_none (handler : Handler) (h : c.isProvided event = false) :
    c.enterChange (.provide event handler) = (c, .calling .fresh) := by
  rw [enterChange, if_neg (Bool.eq_false_iff.mp h)]

theorem enterChange_revoke_stored (h : c.isProvided event = true) :
    c.enterChange (.revoke event) =
      ({ c with providers := c.providers.erase event }, .calling .fresh) := by
  rw [enterChange, if_pos h]

theorem enterChange_revoke_none (h : c.isProvided event = false) :
    c.enterChange (.revoke event) = (c, .releasing (.ok (.revoked false))) := by
  rw [enterChange, if_neg (Bool.eq_false_iff.mp h)]

/-- A change that begins to call the platform about a handler has found that the platform has to
know, and leaves no handler. -/
theorem registers_of_enterChange (hkind : change.ofListeners = false)
    (hcalling : (c.enterChange change).2 = .calling .fresh) :
    c.Registers change ∧ (c.enterChange change).1.isProvided change.event = false := by
  cases change with
  | subscribe | unsubscribe => cases hkind
  | provide event handler =>
      cases hstored : c.isProvided event with
      | true =>
          rw [enterChange_provide_stored handler hstored] at hcalling
          cases hcalling
      | false =>
          rw [enterChange_provide_none handler hstored]
          exact ⟨hstored, hstored⟩
  | revoke event =>
      cases hstored : c.isProvided event with
      | false =>
          rw [enterChange_revoke_none hstored] at hcalling
          cases hcalling
      | true =>
          rw [enterChange_revoke_stored hstored]
          refine ⟨hstored, ?_⟩
          rw [isProvided, Dictionary.contains]
          exact congrArg Option.isSome (Dictionary.get?_erase_self _ _)

/-- A change leaves the handlers of other events alone, when it goes through its gate and when it is
done. -/
theorem get?_providers_of_other
    (hother : ¬(change.ofListeners = false ∧ change.event = event)) :
    (c.enterChange change).1.providers.get? event = c.providers.get? event ∧
      (c.settleChange change).1.providers.get? event = c.providers.get? event := by
  cases change with
  | subscribe event' listener =>
      refine ⟨?_, rfl⟩
      rw [enterChange]
      split <;> rfl
  | unsubscribe event' id =>
      obtain ⟨events, heq⟩ := c.enterChange_unsubscribe event' id
      exact ⟨by rw [heq], rfl⟩
  | provide event' handler =>
      have hne : event ≠ event' := fun heq => hother ⟨rfl, heq.symm⟩
      refine ⟨?_, Dictionary.get?_put_of_ne _ _ hne⟩
      rw [enterChange]
      split
      · exact Dictionary.get?_put_of_ne _ _ hne
      · rfl
  | revoke event' =>
      have hne : event ≠ event' := fun heq => hother ⟨rfl, heq.symm⟩
      refine ⟨?_, rfl⟩
      rw [enterChange]
      split
      · exact Dictionary.get?_erase_of_ne _ hne
      · rfl

theorem providers_of_passes (hpasses : c.passes? m = some change) :
    (c.move m).providers = (c.enterChange change).1.providers ∧
      c.settles? m = (Work.change change (c.enterChange change).2).settled? := by
  cases RollCase.of_passes hpasses with
  | still hnone =>
      rw [hpasses] at hnone
      cases hnone
  | passes hpasses' hsettles hroll =>
      rw [hpasses] at hpasses'
      cases hpasses'
      exact ⟨congrArg Roll.providers hroll, hsettles⟩
  | settles hm hcalling hnone =>
      rw [hpasses] at hnone
      cases hnone

/-- A change that has come to success with a move is not in its call after it. -/
theorem not_calling_of_settles (hsettles : c.settles? (.advance i) ≠ none) {stage : CallStage} :
    (c.move (.advance i)).workAt i ≠ some (.change change (.calling stage)) := by
  intro hwork
  rw [settles?_of_unsettled] at hsettles
  · exact hsettles rfl
  · rw [settledAt, hwork]
    rfl

namespace Unprovided

theorem ofSettings (settings : Settings) (link : Link) : (ofSettings settings link).Unprovided := by
  intro i change stage hwork
  cases hwork

theorem move (h : c.Unprovided) (hnumbered : c.Numbered) (horderly : c.GatesOrderly) (m : Move) :
    (c.move m).Unprovided := by
  intro i change stage' hafter hkind
  rcases calling_of_move hnumbered m hafter with
    ⟨-, stage, hbefore⟩ | ⟨rfl, hgate, howns, hcalling, -⟩
  · refine (isProvided_congr ?_).trans (h i change stage hbefore hkind)
    have hinside : c.visits change.ofListeners i = some (change.event, .inside) :=
      visits_of_workAt hbefore
    cases rollCase hnumbered m with
    | still hpasses hsettles hroll =>
        rw [show (c.move m).providers = c.providers from congrArg Roll.providers hroll]
    | @passes change' hpasses hsettles hroll =>
        rw [show (c.move m).providers = _ from congrArg Roll.providers hroll]
        refine (get?_providers_of_other ?_).1
        rintro ⟨hkind', hevent⟩
        -- Whoever goes through this gate would own it, as the job in its call does.
        obtain ⟨j, rfl, hgate, howns⟩ := passes?_eq_some hpasses
        have hvisit := visits_of_workAt hgate
        rw [gatesOf_eq, hkind', ← hkind] at howns
        rw [hkind', ← hkind, hevent] at hvisit
        obtain rfl := (horderly change.ofListeners).eq_of_owns hinside hvisit
          ((horderly change.ofListeners).owns_of_inside hinside) howns
        rw [hbefore] at hgate
        cases hgate
    | @settles j change' id slot value hm hcalling hpasses hsettles hroll =>
        rw [show (c.move m).providers = _ from congrArg Roll.providers hroll]
        refine (get?_providers_of_other ?_).2
        rintro ⟨hkind', hevent⟩
        obtain rfl := horderly.eq_of_calling_same hbefore hcalling (hkind.trans hkind'.symm)
          hevent.symm
        subst hm
        exact not_calling_of_settles (by rw [hsettles]; exact Option.some_ne_none _) hafter
  · have hpasses := passes?_of_owns hgate howns
    refine (isProvided_congr ?_).trans (registers_of_enterChange hkind hcalling).2
    rw [(providers_of_passes hpasses).1]

theorem run (h : c.Unprovided) (hnumbered : c.Numbered) (horderly : c.GatesOrderly)
    (moves : List Move) : (c.run moves).Unprovided := by
  induction moves generalizing c with
  | nil => exact h
  | cons m rest ih =>
      exact ih (h.move hnumbered horderly m) (hnumbered.move m) (horderly.move hnumbered m)

end Unprovided

theorem Registering.of_calling (hnumbered : c.Numbered) (hnone : ∀ i, c.workAt i = none)
    (horderly : c.GatesOrderly) (hunprovided : c.Unprovided) (hkind : change.ofListeners = false)
    {stage : CallStage}
    (hwork : (c.run moves).workAt i = some (.change change (.calling stage))) :
    c.Registering moves i change := by
  obtain ⟨before, since, rfl, hpasses, hcalling, hsince⟩ := exists_passing hnumbered hnone hwork
  refine ⟨before, since, rfl, hpasses, (registers_of_enterChange hkind hcalling).1,
    fun mid hmid => ?_⟩
  obtain ⟨stage', hmidWork⟩ := hsince mid hmid
  exact ⟨⟨stage', hmidWork⟩,
    hunprovided.run hnumbered horderly _ i change stage' hmidWork hkind⟩

theorem registers?_iff :
    c.registers? event m = true ↔
      ∃ handler, c.settles? m = some (.provide event handler, .registered) := by
  rw [registers?]
  constructor
  · intro h
    split at h
    · next event' handler hsettles =>
        obtain rfl := of_decide_eq_true h
        exact ⟨handler, hsettles⟩
    · cases h
  · rintro ⟨handler, hsettles⟩
    rw [hsettles]
    exact decide_eq_true rfl

theorem removes?_iff :
    c.removes? event m = true ↔
      c.passes? m = some (.revoke event) ∧ c.isProvided event = true := by
  rw [removes?, Bool.and_eq_true, decide_eq_true_eq]

/-- A provision is registered only after it has called the platform. -/
theorem registers?_of_passes (hpasses : c.passes? m = some change) :
    c.registers? event m = false := by
  rw [Bool.eq_false_iff]
  intro hregisters
  obtain ⟨handler, hsettles⟩ := registers?_iff.mp hregisters
  rw [(providers_of_passes hpasses).2] at hsettles
  obtain rfl := Work.eq_of_settled? hsettles
  cases hstored : c.isProvided event with
  | true =>
      rw [enterChange_provide_stored handler hstored] at hsettles
      cases hsettles
  | false =>
      rw [enterChange_provide_none handler hstored] at hsettles
      cases hsettles

/-- A revocation that goes through its gate leaves no handler. -/
theorem isProvided_of_revoke (hpasses : c.passes? m = some (.revoke event)) :
    (c.move m).isProvided event = false := by
  have hproviders := (providers_of_passes hpasses).1
  cases hstored : c.isProvided event with
  | true =>
      rw [enterChange_revoke_stored hstored] at hproviders
      rw [isProvided, Dictionary.contains, hproviders, Dictionary.get?_erase_self]
      rfl
  | false =>
      rw [enterChange_revoke_none hstored] at hproviders
      exact (isProvided_congr (by rw [hproviders])).trans hstored

/-- A change that goes through its gate leaves an event with a handler or without, unless it takes
the handler away. -/
theorem isProvided_of_passes (hpasses : c.passes? m = some change)
    (hremoves : c.removes? event m = false) : (c.move m).isProvided event = c.isProvided event := by
  by_cases hown : change.ofListeners = false ∧ change.event = event
  · obtain ⟨hkind, hevent⟩ := hown
    have hproviders := (providers_of_passes hpasses).1
    cases change with
    | subscribe | unsubscribe => cases hkind
    | provide event' handler =>
        obtain rfl : event' = event := hevent
        cases hstored : c.isProvided event' with
        | true =>
            rw [enterChange_provide_stored handler hstored] at hproviders
            exact isProvided_of_get? (by rw [hproviders]; exact Dictionary.get?_put_self _ _ _)
        | false =>
            rw [enterChange_provide_none handler hstored] at hproviders
            exact (isProvided_congr (by rw [hproviders])).trans hstored
    | revoke event' =>
        obtain rfl : event' = event := hevent
        rw [isProvided_of_revoke hpasses, eq_comm, Bool.eq_false_iff]
        intro hstored
        rw [removes?_iff.mpr ⟨hpasses, hstored⟩] at hremoves
        cases hremoves
  · apply isProvided_congr
    rw [(providers_of_passes hpasses).1]
    exact (get?_providers_of_other hown).1

/-- A move gives an event a handler that had none, or takes it away, just if it registers one or
removes one. -/
theorem isProvided_move (hnumbered : c.Numbered) (hunprovided : c.Unprovided) (m : Move)
    (event : String) :
    (c.isProvided event).toNat + (c.registers? event m).toNat =
      (c.removes? event m).toNat + ((c.move m).isProvided event).toNat := by
  cases rollCase hnumbered m with
  | still hpasses hsettles hroll =>
      have hsame : (c.move m).isProvided event = c.isProvided event := isProvided_congr <| by
        rw [show (c.move m).providers = c.providers from congrArg Roll.providers hroll]
      rw [hsame, registers?, hsettles, removes?, hpasses]
      simp
  | @passes change hpasses hsettles hroll =>
      rw [registers?_of_passes hpasses]
      cases hremoves : c.removes? event m with
      | false =>
          rw [isProvided_of_passes hpasses hremoves]
          simp
      | true =>
          obtain ⟨hpasses', hstored⟩ := removes?_iff.mp hremoves
          rw [hstored, isProvided_of_revoke hpasses']
  | @settles i change id slot value hm hcalling hpasses hsettles hroll =>
      have hproviders : (c.move m).providers = (c.settleChange change).1.providers :=
        congrArg Roll.providers hroll
      have hremoves : c.removes? event m = false := by
        rw [removes?, hpasses]
        rfl
      rw [hremoves]
      by_cases hregisters : c.registers? event m = true
      · obtain ⟨handler, hsettles'⟩ := registers?_iff.mp hregisters
        rw [hsettles'] at hsettles
        cases hsettles
        -- As long as it was in its call, nobody else has brought a handler.
        have hnone := hunprovided i _ _ hcalling rfl
        have hstored : (c.move m).isProvided event = true :=
          isProvided_of_get? (by rw [hproviders]; exact Dictionary.get?_put_self _ _ _)
        rw [hregisters, hstored, show c.isProvided event = false from hnone]
      · have hsame : (c.move m).isProvided event = c.isProvided event := by
          refine isProvided_congr (Eq.trans (by rw [hproviders]) ?_)
          cases change with
          | provide event' handler =>
              apply Dictionary.get?_put_of_ne
              rintro rfl
              exact hregisters (registers?_iff.mpr ⟨handler, hsettles⟩)
          | subscribe | unsubscribe | revoke => rfl
        rw [hsame, Bool.eq_false_iff.mpr hregisters]
        simp

/-- What has been registered for an event has been removed, or the event has a handler. -/
theorem registrations_eq (hnumbered : c.Numbered) (horderly : c.GatesOrderly)
    (hunprovided : c.Unprovided) (moves : List Move) (event : String) :
    (c.isProvided event).toNat + c.registrations event moves =
      c.removals event moves + ((c.run moves).isProvided event).toNat := by
  induction moves generalizing c with
  | nil => rw [registrations, removals, run_nil, Nat.zero_add, Nat.add_zero]
  | cons m rest ih =>
      have hmove := isProvided_move hnumbered hunprovided m event
      have hrest := ih (hnumbered.move m) (horderly.move hnumbered m)
        (hunprovided.move hnumbered horderly m)
      rw [registrations, removals, run_cons]
      omega

end Client

end GatewayClient
