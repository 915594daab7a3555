/-
What providing and revoking come to.  A provision that finds a handler replaces it and tells nobody,
and one that finds none asks the platform first; a revocation takes the handler away first.  What
each returns says which it was, and a provision that fails or is given up leaves everything as it
was.
-/
import GatewayClient.Proofs.Client.Registrations

namespace GatewayClient

/-- What a change of who provides comes to, by whether the platform is told of it. -/
inductive Change.ComesTo : Bool → Change → Changed → Prop
  | registered {event : String} {handler : Handler} :
    ComesTo true (.provide event handler) .registered
  | replaced {event : String} {handler : Handler} :
    ComesTo false (.provide event handler) .replaced
  | revoked {event : String} : ComesTo true (.revoke event) (.revoked true)
  | unknown {event : String} : ComesTo false (.revoke event) (.revoked false)

namespace Client

variable {c : Client} {i : JobId} {m : Move} {change change' : Change} {changed : Changed}
  {stage stage' : ChangeStage} {event : String} {handler : Handler} {moves : List Move}

/-- A change that the platform need not know of is done when it goes through its gate. -/
theorem enterChange_of_idle (hkind : change.ofListeners = false) (hidle : ¬c.Registers change) :
    ∃ changed, change.ComesTo false changed ∧
      (c.enterChange change).2 = .releasing (.ok changed) := by
  cases change with
  | subscribe | unsubscribe => cases hkind
  | provide event handler =>
      have hstored : c.isProvided event = true := Bool.not_eq_false _ ▸ hidle
      exact ⟨.replaced, .replaced, by rw [enterChange_provide_stored handler hstored]⟩
  | revoke event =>
      have hnone : c.isProvided event = false := Bool.eq_false_iff.mpr hidle
      exact ⟨.revoked false, .unknown, by rw [enterChange_revoke_none hnone]⟩

/-- One that it has to know of begins its call. -/
theorem enterChange_of_registers (hregisters : c.Registers change) :
    (c.enterChange change).2 = .calling .fresh := by
  cases change with
  | subscribe | unsubscribe => cases hregisters
  | provide event handler => rw [enterChange_provide_none handler hregisters]
  | revoke event => rw [enterChange_revoke_stored hregisters]

/-- So it comes to success with the same move. -/
theorem settles?_of_idle (hpasses : c.passes? m = some change) (hkind : change.ofListeners = false)
    (hidle : ¬c.Registers change) :
    ∃ changed, change.ComesTo false changed ∧ c.settles? m = some (change, changed) := by
  obtain ⟨changed, hcomes, hdone⟩ := enterChange_of_idle hkind hidle
  refine ⟨changed, hcomes, ?_⟩
  rw [(providers_of_passes hpasses).2, hdone]
  rfl

theorem comesTo_of_settles (hnumbered : c.Numbered) (hnone : ∀ i, c.workAt i = none)
    (horderly : c.GatesOrderly) (hunprovided : c.Unprovided) (hkind : change.ofListeners = false)
    (hsettles : (c.run moves).settles? (.advance i) = some (change, changed)) :
    (change.ComesTo false changed ∧ (c.run moves).passes? (.advance i) = some change ∧
        ¬(c.run moves).Registers change) ∨
      (change.ComesTo true changed ∧ c.Registering moves i change) := by
  cases rollCase (hnumbered.run moves) (.advance i) with
  | still hpasses hstill hroll =>
      rw [hstill] at hsettles
      cases hsettles
  | passes hpasses hsettles' hroll =>
      have hdone := hsettles'.symm.trans hsettles
      obtain rfl := Work.eq_of_settled? hdone
      by_cases hregisters : (c.run moves).Registers change
      · rw [enterChange_of_registers hregisters] at hdone
        cases hdone
      · obtain ⟨changed', hcomes, hsettles'⟩ := settles?_of_idle hpasses hkind hregisters
        rw [hsettles] at hsettles'
        cases hsettles'
        exact Or.inl ⟨hcomes, hpasses, hregisters⟩
  | settles hm hcalling hpasses hsettles' hroll =>
      cases hm
      rw [hsettles] at hsettles'
      cases hsettles'
      refine Or.inr ⟨?_, .of_calling hnumbered hnone horderly hunprovided hkind hcalling⟩
      cases change with
      | subscribe | unsubscribe => cases hkind
      | provide => exact .registered
      | revoke => exact .revoked

/-- Who provides changes only when a provision comes to success, or a revocation goes through its
gate. -/
theorem providers_move (hnumbered : c.Numbered)
    (hprovide : ∀ event handler changed, c.settles? m ≠ some (.provide event handler, changed))
    (hrevoke : ∀ event, c.passes? m ≠ some (.revoke event)) :
    (c.move m).providers = c.providers := by
  cases rollCase hnumbered m with
  | still hpasses hsettles hroll => exact congrArg Roll.providers hroll
  | @passes change hpasses hsettles hroll =>
      refine (congrArg Roll.providers hroll).trans ?_
      cases change with
      | subscribe event listener =>
          rw [roll, enterChange]
          split <;> rfl
      | unsubscribe event id =>
          obtain ⟨events, heq⟩ := c.enterChange_unsubscribe event id
          rw [roll, heq]
      | provide event handler =>
          cases hstored : c.isProvided event with
          | true =>
              rw [enterChange_provide_stored handler hstored] at hsettles
              exact absurd hsettles (hprovide event handler .replaced)
          | false => rw [roll, enterChange_provide_none handler hstored]
      | revoke event => exact absurd hpasses (hrevoke event)
  | @settles i change id slot value hm hcalling hpasses hsettles hroll =>
      refine (congrArg Roll.providers hroll).trans ?_
      cases change with
      | provide event handler => exact absurd hsettles (hprovide event handler .registered)
      | subscribe | unsubscribe | revoke => rfl

/-- A change that has come to success does not get out of that as long as it is there. -/
theorem settledAt_of_later (hnumbered : c.Numbered)
    (hget : c.jobs.get? i = some (.change change stage))
    (hsettled : c.settledAt i = some (change, changed))
    (hget' : (c.run moves).jobs.get? i = some (.change change stage')) :
    (c.run moves).settledAt i = some (change, changed) := by
  induction moves generalizing c stage with
  | nil => exact hsettled
  | cons m rest ih =>
      have hnext := hnumbered.move m
      cases hget₁ : (c.move m).jobs.get? i with
      | none =>
          have hi := Nat.lt_of_lt_of_le (hnumbered i _ hget) (inherits_move hnumbered m).nextJob
          rw [run_cons, (inherits_run hnext rest).gone hi hget₁] at hget'
          cases hget'
      | some job₁ =>
          obtain ⟨stage₁, rfl⟩ := (inherits_move hnumbered m).eq_change hnumbered hget hget₁
          refine ih hnext hget₁ ?_ hget'
          rw [settledAt_of_work? hget₁ rfl]
          rcases stage_of_move hnumbered m hget hget₁ with rfl | ⟨-, c₁, hstep⟩
          · rw [← hsettled, settledAt_of_work? hget rfl]
          · obtain ⟨-, rfl | rfl⟩ := stage_of_settledAt hget hsettled
            · cases hstep
              rfl
            · cases hstep

/-- What a job does before its provision has come to success leaves who provides as it is. -/
theorem providers_of_unsettled (hnumbered : c.Numbered) {later : List Move}
    (hget : (c.run (m :: later)).jobs.get? i = some (.change (.provide event handler) stage))
    (hunsettled : (c.run (m :: later)).settledAt i = none) (hown : m = .advance i ∨ m = .drop i) :
    (c.move m).providers = c.providers := by
  have hnext := hnumbered.move m
  rcases hown with rfl | rfl
  · apply providers_move hnumbered
    · intro event' handler' changed hsettles
      have hsettled := settledAt_of_settles hsettles
      obtain ⟨job, hjob⟩ := exists_job_of_settledAt hsettled
      obtain ⟨stage', rfl⟩ := eq_change_of_later hnext hjob hget
      obtain ⟨heq, -⟩ := stage_of_settledAt hjob hsettled
      rw [heq] at hsettled
      rw [run_cons, settledAt_of_later hnext hjob hsettled hget] at hunsettled
      cases hunsettled
    · -- A job that lets a revocation through would be for that.
      intro event' hpasses
      obtain ⟨j, hm, hwork, -⟩ := passes?_eq_some hpasses
      cases hm
      obtain ⟨job, hjob, hbegun⟩ := Option.bind_eq_some_iff.mp hwork
      obtain ⟨stage', rfl⟩ := eq_change_of_later hnumbered hjob hget
      cases (Option.filter_eq_some_iff.mp hbegun).1
  · exact providers_move hnumbered (fun _ _ _ => nofun) fun _ => nofun

/-- A job whose change comes to nothing: it is given up before the change has come to success, or it
returns a failure. -/
def Fails (c : Client) (i : JobId) (m : Move) : Prop :=
  (m = .drop i ∧ c.settledAt i = none) ∨
    ∃ failure, m = .advance i ∧ c.Returns i (.error failure)

theorem Fails.providers (hnumbered : c.Numbered) (h : c.Fails i m)
    (hget : c.jobs.get? i = some (.change change stage)) :
    c.settledAt i = none ∧ (c.move m).providers = c.providers := by
  rcases h with ⟨rfl, hunsettled⟩ | ⟨failure, rfl, hreturns⟩
  · exact ⟨hunsettled, providers_move hnumbered (fun _ _ _ => nofun) fun _ => nofun⟩
  · obtain ⟨result, rfl, hfailure⟩ := hreturns.stage hget
    cases result with
    | ok changed => cases hfailure
    | error failure =>
        have hpasses : c.passes? (.advance i) = none := by
          rw [passes?, workAt_of_get? hget]
          rfl
        have hgone : (c.move (.advance i)).settledAt i = none := by
          rw [settledAt, workAt, get?_move_of_over hget rfl]
          rfl
        refine ⟨settledAt_of_work? hget rfl, providers_move hnumbered ?_ ?_⟩
        · simp [settles?_of_unsettled hgone]
        · simp [hpasses]

/-- A provision that comes to nothing has left who provides as it is, with each of its steps. -/
theorem Fails.untouched (hnumbered : c.Numbered) {before : List Move} (h : (c.run before).Fails i m)
    (hget : (c.run before).jobs.get? i = some (.change (.provide event handler) stage))
    {earlier later : List Move} {m' : Move} (heq : before ++ [m] = earlier ++ m' :: later)
    (hown : m' = .advance i ∨ m' = .drop i) :
    ((c.run earlier).move m').providers = (c.run earlier).providers := by
  obtain ⟨hunsettled, hlast⟩ := h.providers (hnumbered.run before) hget
  -- Either this is the move with which it comes to nothing, or one before it.
  rcases List.eq_nil_or_concat later with rfl | ⟨later, last, rfl⟩
  · obtain ⟨rfl, hm⟩ := List.append_inj' heq rfl
    cases hm
    exact hlast
  · rw [List.concat_eq_append, ← List.cons_append, ← List.append_assoc] at heq
    obtain ⟨rfl, -⟩ := List.append_inj' heq rfl
    rw [run_append] at hget hunsettled
    exact providers_of_unsettled (hnumbered.run earlier) hget hunsettled hown

/-- In a run, what becomes of the changes of who provides.  The platform is asked exactly when it
has to know, and what a change comes to tells whether it had to.  A handler answers from when its
provision has come to success until it is replaced or revoked, and who provides changes only then
and when a revocation goes through its gate.  The registrations of an event are as many as its
removals, and one more as long as it has a handler. -/
structure ProviderLifecycle (c : Client) (moves : List Move) : Prop where
  handed : ∀ before m after, moves = before ++ m :: after →
    ((c.run before).move m).requestIds = (c.run before).requestIds ∨
      ∃ i call id, (c.run before).HandsOver m i call id ∧
        ((∃ stage, (c.run before).workAt i = some (.call call stage)) ∨
          ∃ change stage, (c.run before).workAt i = some (.change change (.calling stage)) ∧
            call = (c.run before).changeCall change ∧
            (change.ofListeners = false → c.Registering before i change))
  alone : ∀ i j change change' stage stage',
    (c.run moves).workAt i = some (.change change (.calling stage)) →
    (c.run moves).workAt j = some (.change change' (.calling stage')) →
    change.ofListeners = false → change'.ofListeners = false → change.event = change'.event → i = j
  idle : ∀ before i change after, moves = before ++ .advance i :: after →
    (c.run before).passes? (.advance i) = some change → change.ofListeners = false →
    ¬(c.run before).Registers change →
    (∃ changed, change.ComesTo false changed ∧
      (c.run before).settles? (.advance i) = some (change, changed)) ∧
      ((c.run before).jobs.get? i = some (.change change .atGate) → c.HandsNothing moves i)
  comesTo : ∀ i change changed, (c.run moves).settles? (.advance i) = some (change, changed) →
    change.ofListeners = false →
    (change.ComesTo false changed ∧ (c.run moves).passes? (.advance i) = some change ∧
        ¬(c.run moves).Registers change) ∨
      (change.ComesTo true changed ∧ c.Registering moves i change)
  returned : ∀ before i after change stage value, moves = before ++ .advance i :: after →
    (c.run before).jobs.get? i = some (.change change stage) →
    (c.run before).Returns i (.ok value) →
    ∃ changed earlier later, value = changed.toJson ∧ before = earlier ++ .advance i :: later ∧
      (c.run earlier).settles? (.advance i) = some (change, changed)
  returns : ∀ before i since change stage changed, moves = before ++ .advance i :: since →
    (c.run before).jobs.get? i = some (.change change stage) →
    (c.run before).settles? (.advance i) = some (change, changed) → .drop i ∉ since →
    (c.run moves).settledAt i = some (change, changed) ∨
      ∃ first second, since = first ++ .advance i :: second ∧
        (c.run (before ++ .advance i :: first)).Returns i (.ok changed.toJson)
  answered : ∀ before i since event handler changed, moves = before ++ .advance i :: since →
    (c.run before).settles? (.advance i) = some (.provide event handler, changed) →
    ((c.run before).move (.advance i)).Throughout
      (fun client m => (∀ handler changed,
          client.settles? m ≠ some (.provide event handler, changed)) ∧
        client.passes? m ≠ some (.revoke event)) since →
    ∀ m call, (c.run moves).providerCall? m = some call → call.method = event →
      ∀ later, ((c.run moves).move m).Answered (c.run moves).nextJob call (some handler) later
  kept : ∀ m, (∀ event handler changed,
      (c.run moves).settles? m ≠ some (.provide event handler, changed)) →
    (∀ event, (c.run moves).passes? m ≠ some (.revoke event)) →
    ((c.run moves).move m).providers = (c.run moves).providers
  untouched : ∀ before i event handler stage m after, moves = before ++ m :: after →
    (c.run before).jobs.get? i = some (.change (.provide event handler) stage) →
    (c.run before).Fails i m →
    ∀ earlier m' later, before ++ [m] = earlier ++ m' :: later →
      m' = .advance i ∨ m' = .drop i →
      ((c.run earlier).move m').providers = (c.run earlier).providers
  revoked : ∀ before m since event, moves = before ++ m :: since →
    (c.run before).passes? m = some (.revoke event) →
    ((c.run before).move m).isProvided event = false ∧
      (((c.run before).move m).registrations event since = 0 →
        (c.run moves).isProvided event = false)
  counted : ∀ event, c.registrations event moves =
    c.removals event moves + ((c.run moves).isProvided event).toNat

/-- In every run of a client, whatever the platform answers and wherever jobs are given up, the
registrations of an event's handler take turns with its removals. -/
theorem provider_lifecycle (settings : Settings) (link : Link) (moves : List Move) :
    (ofSettings settings link).ProviderLifecycle moves := by
  have hnumbered := numbered_ofSettings settings link
  have horderly := GatesOrderly.ofSettings settings link
  have hunprovided := Unprovided.ofSettings settings link
  have hnone : ∀ i, (ofSettings settings link).workAt i = none := fun _ => rfl
  constructor
  · intro before m after _
    rcases requestIds_move (hnumbered.run before) m with hsame | ⟨i, call, id, hhands⟩
    · exact Or.inl hsame
    · obtain ⟨stage, hcall, -⟩ := hhands.2.1
      refine Or.inr ⟨i, call, id, hhands, ?_⟩
      rcases workAt_of_callAt hcall with hwork | ⟨change, hwork, heq⟩
      · exact Or.inl ⟨stage, hwork⟩
      · exact Or.inr ⟨change, stage, hwork, heq, fun hkind =>
          .of_calling hnumbered hnone horderly hunprovided hkind hwork⟩
  · intro i j change change' stage stage' hi hj hkind hkind' hevent
    exact (horderly.run hnumbered moves).eq_of_calling_same hi hj (hkind.trans hkind'.symm) hevent
  · rintro before i change after rfl hpasses hkind hidle
    refine ⟨settles?_of_idle hpasses hkind hidle, fun hget => ?_⟩
    obtain ⟨changed, -, hdone⟩ := enterChange_of_idle hkind hidle
    obtain ⟨j, hm, -, howns⟩ := passes?_eq_some hpasses
    cases hm
    exact .of_done hnumbered after hget howns hdone
  · intro i change changed hsettles hkind
    exact comesTo_of_settles hnumbered hnone horderly hunprovided hkind hsettles
  · rintro before i after change stage value rfl hget hreturns
    obtain ⟨changed, rfl, hsettled⟩ := hreturns.settledAt hget
    obtain ⟨earlier, later, rfl, hsettles⟩ := exists_settles hnumbered hnone hsettled
    exact ⟨changed, earlier, later, rfl, rfl, hsettles⟩
  · rintro before i since change stage changed rfl hget hsettles hkept
    have hbefore := hnumbered.run before
    have hsettled := settledAt_of_settles hsettles
    obtain ⟨job, hget'⟩ := exists_job_of_settledAt hsettled
    obtain ⟨stage', rfl⟩ := (inherits_move hbefore _).eq_change hbefore hget hget'
    rw [run_append, run_cons]
    rcases returns_of_settledAt (hbefore.move _) hget' hsettled hkept with
      hlast | ⟨first, second, rfl, hreturns⟩
    · exact Or.inl hlast
    · refine Or.inr ⟨first, second, rfl, ?_⟩
      rwa [run_append, run_cons]
  · rintro before i since event handler changed rfl hsettles hstays m call hcall rfl later
    have hbefore := hnumbered.run before
    have hget := get?_providers_run (hbefore.move (.advance i)) hstays
    rw [get?_providers_of_settles hbefore hsettles, ← run_cons, ← run_append] at hget
    rw [← hget]
    exact answered_of_providerCall (hnumbered.run _)
      ((Served.ofSettings settings link).run hnumbered _) hcall later
  · exact fun m => providers_move (hnumbered.run moves)
  · rintro before i event handler stage m after rfl hget hfails earlier m' later heq hown
    exact hfails.untouched hnumbered hget heq hown
  · rintro before m since event rfl hpasses
    have hgone := isProvided_of_revoke hpasses
    refine ⟨hgone, fun hnone => ?_⟩
    have hbefore := hnumbered.run before
    have horderly' := horderly.run hnumbered before
    have hcount := registrations_eq (hbefore.move m) (horderly'.move hbefore m)
      ((hunprovided.run hnumbered horderly before).move hbefore horderly' m) since event
    rw [hgone, hnone, ← run_cons, ← run_append] at hcount
    exact Bool.toNat_eq_zero.mp (Nat.eq_zero_of_add_eq_zero_left hcount.symm)
  · intro event
    have hcount := registrations_eq hnumbered horderly hunprovided moves event
    rwa [show (ofSettings settings link).isProvided event = false from rfl, Bool.toNat_false,
      Nat.zero_add] at hcount

/-- Of two that provide at once, one registers its handler and the other replaces it; the revocation
that comes after them takes the handler away, though the platform refuses it. -/
example :
    let event := "keyboard.onRequestStandard"
    let handler := fun name =>
      Handler.scripted name none .anything .anything ⟨none, .outcome (.ok .null)⟩
    let changes := [.provide event (handler "a"), .provide event (handler "b"), .revoke event]
    let moves := changes.map (fun change => .begin (.change change)) ++
      [0, 1, 0, 1, 0, 1, 0, 0, 1].map Move.advance ++
      [.deliver "\x7b\"id\":1,\"result\":null\x7d" true] ++
      [0, 0, 0, 0, 1, 1, 1, 2, 2, 2, 2, 2].map Move.advance ++
      [.deliver "\x7b\"id\":2,\"error\":\x7b\"code\":-32000,\"message\":\"no\"\x7d\x7d" true] ++
      [2, 2, 2, 2].map Move.advance
    let start := ofSettings {} (.direct .up)
    let client := start.run moves
    (client.finished.map fun entry => (entry.1, entry.2.toOption)) =
        [(0, some (.string "Registered")), (1, some (.string "Replaced")), (2, none)] ∧
      start.registrations event moves = 1 ∧ start.removals event moves = 1 ∧
      client.isProvided event = false := by
  decide +kernel

end Client

end GatewayClient
