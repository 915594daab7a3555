/-
Notices reach those who listen.  Whenever a notice comes in, each listener that its event then has
is run on it once, in the order in which they came; and who that is follows from which subscriptions
have come to success and which have been taken back, whatever the platform said to that.
-/
import GatewayClient.Proofs.Client.Roster
import GatewayClient.Proofs.Client.Transition

namespace GatewayClient

namespace Listener

/-- What a listener notes of a notice: nothing if it cannot read it. -/
def heard (value : Json) (listener : Listener) : List Note :=
  (listener.payload.normalize value).toList.map fun value => ⟨listener.name, value⟩

/-- Whether a listener runs to its end on a notice. -/
def completes (value : Json) (listener : Listener) : Bool :=
  (listener.payload.normalize value).isNone || listener.reaction != .breakDown

end Listener

namespace Client

variable {c : Client} {i : JobId} {event : String} {listener : Listener} {m : Move}

theorem notes_start (c : Client) (job : Job) : (c.start job).1.notes = c.notes := by
  obtain ⟨ready, heq⟩ := c.start_eq job
  rw [heq]

theorem notes_runListener (c : Client) (event : String) (value : Json) (listener : Listener) :
    (c.runListener event value listener).1.notes = c.notes ++ listener.heard value := by
  rw [runListener_eq, notes_performAll, Listener.deeds, Listener.heard]
  cases listener.payload.normalize value with
  | none => rfl
  | some value =>
      cases listener.reaction with
      | nothing | breakDown | enlist => rfl
      | detach target =>
          dsimp only
          cases c.attached.get? target <;> rfl

theorem runListener_completes (c : Client) (event : String) (value : Json) (listener : Listener) :
    (c.runListener event value listener).2 = listener.completes value := by
  rw [runListener, Listener.completes]
  cases listener.payload.normalize value with
  | none => rfl
  | some value => cases listener.reaction <;> rfl

/-- Listeners are run one after the other, each once. -/
theorem runListeners_eq (c : Client) (event : String) (value : Json)
    (entries : List (UInt64 × Listener)) :
    c.runListeners event value entries =
      (entries.foldl (fun client entry => (client.runListener event value entry.2).1) c,
        entries.countP fun entry => entry.2.completes value) := by
  induction entries generalizing c with
  | nil => rfl
  | cons entry rest ih =>
      rw [runListeners]
      simp only [ih, runListener_completes, List.foldl_cons, List.countP_cons]
      split <;> rfl

theorem notes_runListeners (c : Client) (event : String) (value : Json)
    (entries : List (UInt64 × Listener)) :
    (entries.foldl (fun client entry => (client.runListener event value entry.2).1) c).notes =
      c.notes ++ entries.flatMap fun entry => entry.2.heard value := by
  induction entries generalizing c with
  | nil => simp
  | cons entry rest ih =>
      rw [List.foldl_cons, ih, notes_runListener, List.flatMap_cons, List.append_assoc]

/-- A change that has come to success stays so until it returns or is given up. -/
theorem settledAt_of_move (hnumbered : c.Numbered) {settled : Change × Changed}
    (hafter : (c.move m).settledAt i = some settled) :
    c.settledAt i = some settled ∨ m = .advance i ∧ c.settles? m = some settled := by
  cases moveCase hnumbered m with
  | quiet hreply h => exact Or.inl (by rwa [settledAt, h.work hnumbered] at hafter)
  | reply hreply h => exact Or.inl (by rwa [settledAt, h.work hnumbered] at hafter)
  | sweep hm hjob h => exact Or.inl (by rwa [settledAt, h.work hnumbered] at hafter)
  | @turn j job work work' c₁ hm hjob hwork hturn h =>
      by_cases hj : i = j
      · subst hj
        subst hm
        cases hbefore : c.settledAt i with
        | none => exact Or.inr ⟨rfl, by rw [settles?, hbefore]; exact hafter⟩
        | some settled' =>
            rw [settledAt_of_work? hjob hwork] at hbefore
            rw [settledAt, h.work, if_pos rfl] at hafter
            cases hturn with
            | call | callOver | changeOver => cases hafter
            | change hmoved =>
                have hstep := stepChange_moved hmoved
                cases hstep with
                | refer | join | enter | call | settle | fail => cases hbefore
                | @release result =>
                    cases result with
                    | error f => cases hbefore
                    | ok changed =>
                        cases hbefore
                        exact Or.inl hafter
      · rw [settledAt, h.work, if_neg hj] at hafter
        exact Or.inl hafter
  | drop hm hjob hwork h =>
      rw [settledAt, h.work] at hafter
      split at hafter
      · cases hafter
      · exact Or.inl hafter

theorem settledAt_of_settles {settled : Change × Changed}
    (h : c.settles? (.advance i) = some settled) :
    (c.move (.advance i)).settledAt i = some settled := by
  rw [settles?] at h
  split at h
  · exact h
  · cases h

/-- A change that has come to success has done so at some move. -/
theorem exists_settles (hnumbered : c.Numbered) (hnone : ∀ i, c.workAt i = none)
    {moves : List Move} {settled : Change × Changed}
    (hsettled : (c.run moves).settledAt i = some settled) :
    ∃ before since, moves = before ++ .advance i :: since ∧
      (c.run before).settles? (.advance i) = some settled := by
  induction moves using List.reverseRecOn with
  | nil =>
      rw [run_nil, settledAt, hnone] at hsettled
      cases hsettled
  | append_singleton moves m ih =>
      rw [run_concat] at hsettled
      rcases settledAt_of_move (hnumbered.run moves) hsettled with hbefore | ⟨rfl, hsettles⟩
      · obtain ⟨before, since, rfl, hsettles⟩ := ih hbefore
        exact ⟨before, since ++ [m], by simp, hsettles⟩
      · exact ⟨moves, [], rfl, hsettles⟩

/-- The move at which a job's activity ends with an outcome. -/
def Returns (c : Client) (i : JobId) (outcome : Outcome) : Prop :=
  (c.move (.advance i)).finished = c.finished ++ [(i, outcome)]

theorem Acts.finished {c' : Client} (h : c.Acts c') : c'.finished = c.finished := by
  obtain ⟨_, _, _, _, _, _, _, _, _, rfl⟩ := h
  rfl

theorem finished_finishChange (c : Client) (i : JobId) (change : Change)
    (result : Except Failure Changed) :
    (c.finishChange i change result).finished = c.finished ++ [(i, result.map Changed.toJson)] := by
  unfold finishChange
  dsimp only
  split <;> rfl

/-- A change returns what it has come to, once it has left its gate. -/
theorem Returns.stage {change : Change} {stage : ChangeStage} {outcome : Outcome}
    (hget : c.jobs.get? i = some (.change change stage)) (h : c.Returns i outcome) :
    ∃ result, stage = .pruning result ∧ outcome = result.map Changed.toJson := by
  have hgrows : ∀ {client : Client}, client.finished = c.finished →
      client.finished ≠ c.finished ++ [(i, outcome)] := by
    intro client hsame heq
    rw [hsame] at heq
    exact absurd (congrArg List.length heq) (by simp)
  rw [Returns, move, stepJob?, hget] at h
  dsimp only at h
  split at h
  · exact absurd h (hgrows rfl)
  · next client stage' hmoved =>
      exact absurd h (hgrows (stepChange_moved hmoved).acts.finished)
  · next client result hover =>
      obtain ⟨rfl, rfl⟩ := stepChange_over hover
      rw [Option.getD_some, finished_finishChange,
        (Acts.ofRearranges (.setGatesOf c change _)).finished] at h
      cases List.append_cancel_left h
      exact ⟨result, rfl, rfl⟩

/-- A change that returns successfully has come to that. -/
theorem Returns.settledAt {change : Change} {stage : ChangeStage} {value : Json}
    (hget : c.jobs.get? i = some (.change change stage)) (h : c.Returns i (.ok value)) :
    ∃ changed, value = changed.toJson ∧ c.settledAt i = some (change, changed) := by
  obtain ⟨result, rfl, hvalue⟩ := h.stage hget
  cases result with
  | error f => cases hvalue
  | ok changed =>
      cases hvalue
      exact ⟨changed, rfl, settledAt_of_work? hget rfl⟩

/-- A change that has come to success has only to let go of its gate and to prune it. -/
theorem stage_of_settledAt {change change' : Change} {stage : ChangeStage} {changed : Changed}
    (hget : c.jobs.get? i = some (.change change stage))
    (hsettled : c.settledAt i = some (change', changed)) :
    change' = change ∧ (stage = .releasing (.ok changed) ∨ stage = .pruning (.ok changed)) := by
  rw [settledAt_of_work? hget rfl] at hsettled
  cases stage with
  | releasing result =>
      cases result <;> cases hsettled
      exact ⟨rfl, Or.inl rfl⟩
  | pruning result =>
      cases result <;> cases hsettled
      exact ⟨rfl, Or.inr rfl⟩
  | fresh | referring | atGate | calling => cases hsettled

/-- A job whose change has come to success returns that within two steps. -/
theorem settledAt_step {change : Change} {stage : ChangeStage} {changed : Changed}
    (hget : c.jobs.get? i = some (.change change stage))
    (hsettled : c.settledAt i = some (change, changed)) :
    (c.move (.advance i)).settledAt i = some (change, changed) ∨
      c.Returns i (.ok changed.toJson) := by
  obtain ⟨-, rfl | rfl⟩ := stage_of_settledAt hget hsettled
  · left
    have hnext : (c.move (.advance i)).jobs.get? i =
        some (.change change (.pruning (.ok changed))) := by
      rw [move, stepJob?, hget]
      exact Dictionary.get?_put_self _ _ _
    exact settledAt_of_work? hnext rfl
  · right
    rw [Returns, move, stepJob?, hget]
    simp only [stepChange, Option.getD_some]
    rw [finished_finishChange, (Acts.ofRearranges (.setGatesOf c change _)).finished]
    rfl

/-- A change that has come to success is there. -/
theorem exists_job_of_settledAt {settled : Change × Changed} (h : c.settledAt i = some settled) :
    ∃ job, c.jobs.get? i = some job := by
  obtain ⟨work, hwork, -⟩ := Option.bind_eq_some_iff.mp h
  obtain ⟨job, hget, -⟩ := Option.bind_eq_some_iff.mp hwork
  exact ⟨job, hget⟩

/-- A job whose change has come to success returns that, unless it is given up. -/
theorem returns_of_settledAt (hnumbered : c.Numbered) {change : Change} {stage : ChangeStage}
    {changed : Changed} (hget : c.jobs.get? i = some (.change change stage))
    (hsettled : c.settledAt i = some (change, changed)) {since : List Move}
    (hkept : .drop i ∉ since) :
    (c.run since).settledAt i = some (change, changed) ∨
      ∃ first second, since = first ++ .advance i :: second ∧
        (c.run first).Returns i (.ok changed.toJson) := by
  induction since generalizing c stage with
  | nil => exact Or.inl hsettled
  | cons m rest ih =>
      rw [List.mem_cons, not_or] at hkept
      have hnext : (c.move m).settledAt i = some (change, changed) ∨
          m = .advance i ∧ c.Returns i (.ok changed.toJson) := by
        by_cases hm : m = .advance i
        · subst hm
          exact (settledAt_step hget hsettled).imp_right fun h => ⟨rfl, h⟩
        · left
          rw [settledAt, workAt_move_of_others hnumbered hm (Ne.symm hkept.1)]
          exact hsettled
      rcases hnext with hnext | ⟨rfl, hreturns⟩
      · obtain ⟨job, hget'⟩ := exists_job_of_settledAt hnext
        obtain ⟨stage', rfl⟩ := (inherits_move hnumbered m).eq_change hnumbered hget hget'
        rcases ih (hnumbered.move m) hget' hnext hkept.2 with hlast | ⟨first, second, rfl, hreturns⟩
        · exact Or.inl hlast
        · exact Or.inr ⟨m :: first, second, rfl, hreturns⟩
      · exact Or.inr ⟨[], rest, rfl, hreturns⟩

theorem settledAt_run (hnumbered : c.Numbered) {change : Change} {changed : Changed}
    (hlisteners : change.ofListeners = true) (hsettled : c.settledAt i = some (change, changed))
    {since : List Move} (hkept : .drop i ∉ since) :
    (c.run since).settledAt i = some (change, changed) ∨
      ∃ first second, since = first ++ .advance i :: second ∧
        (c.run first).Returns i (.ok changed.toJson) := by
  obtain ⟨work, hwork, hwork'⟩ := Option.bind_eq_some_iff.mp hsettled
  cases work with
  | call call stage => cases hwork'
  | change change' stage =>
      obtain rfl := Work.eq_of_settled? hwork'
      exact returns_of_settledAt hnumbered (get?_of_workAt hlisteners hwork) hsettled hkept

/-- Whoever comes with a move does so by a job that has come to success. -/
theorem settledAt_of_comes {id : UInt64}
    (hcomes : c.comes? event (.advance i) = some (id, listener)) :
    (c.move (.advance i)).settledAt i = some (.subscribe event listener, .attached id) := by
  rw [comes?] at hcomes
  split at hcomes
  · next event' entry henrols =>
      split at hcomes
      · next heq =>
          subst heq
          cases hcomes
          exact settledAt_of_settles (enrols?_eq_some henrols)
      · cases hcomes
  · cases hcomes

/-- In a run, a notice reaches exactly those who listen to its event: those whose subscription has
come to success and that have not had to go since.  It is handed to each of them once and in order,
and to nobody else, and those are counted that run to their end; whatever they do, nobody comes or
goes meanwhile.  A subscription that has come to success returns so, unless it is given up. -/
structure FansOut (c : Client) (moves : List Move) : Prop where
  attached : ∀ event, (c.run moves).listenersOf event = c.enrolled event moves
  returned : ∀ before i after event listener stage value, moves = before ++ .advance i :: after →
    (c.run before).jobs.get? i = some (.change (.subscribe event listener) stage) →
    (c.run before).Returns i (.ok value) →
    ∃ id earlier later, value = (Changed.attached id).toJson ∧
      before = earlier ++ .advance i :: later ∧
      (c.run earlier).comes? event (.advance i) = some (id, listener)
  returns : ∀ before i since event id listener, moves = before ++ .advance i :: since →
    (c.run before).comes? event (.advance i) = some (id, listener) → .drop i ∉ since →
    (c.run moves).settledAt i = some (.subscribe event listener, .attached id) ∨
      ∃ first second, since = first ++ .advance i :: second ∧
        (c.run (before ++ .advance i :: first)).Returns i (.ok (Changed.attached id).toJson)
  dispatched : ∀ event value, (c.run moves).dispatch event value =
    ((c.enrolled event moves).foldl
        (fun client entry => (client.runListener event value entry.2).1) (c.run moves),
      (c.enrolled event moves).countP fun entry => entry.2.completes value)
  noted : ∀ event value, ((c.run moves).dispatch event value).1.notes =
    (c.run moves).notes ++ (c.enrolled event moves).flatMap fun entry => entry.2.heard value
  undisturbed : ∀ event value, ((c.run moves).dispatch event value).1.roll = (c.run moves).roll
  brought : ∀ m notice, (c.run moves).notice? m = some notice →
    ((c.run moves).taking m).roll = (c.run moves).roll ∧
      (c.run moves).move m =
        (((c.run moves).taking m).dispatch notice.event notice.value).1
  nonempty : ∀ event, (c.run moves).events.get? event ≠ some []
  distinct : (c.enrolments moves).length < UInt64.size →
    ((c.run moves).events.flatMap fun entry => entry.2.map Prod.fst).Nodup

theorem roll_taking (c : Client) (m : Move) : (c.taking m).roll = c.roll := by
  cases m <;> rfl

/-- In every run of a client, notices reach exactly those who listen. -/
theorem fan_out_exact (settings : Settings) (link : Link) (moves : List Move) :
    (ofSettings settings link).FansOut moves := by
  have hnumbered := numbered_ofSettings settings link
  have hattached := fun event => listenersOf_run hnumbered moves event
  have htidy := (Tidy.ofSettings settings link).run hnumbered moves
  refine ⟨hattached, ?_, ?_, ?_, ?_, ?_, ?_, htidy.nonempty, ?_⟩
  · rintro before i after event listener stage value rfl hget hreturns
    obtain ⟨changed, rfl, hsettled⟩ := hreturns.settledAt hget
    obtain ⟨earlier, later, rfl, hsettles⟩ := exists_settles hnumbered (fun _ => rfl) hsettled
    obtain ⟨id, rfl, hcomes⟩ := comes?_of_settles (hnumbered.run earlier) hsettles
    exact ⟨id, earlier, later, rfl, rfl, hcomes⟩
  · rintro before i since event id listener rfl hcomes hkept
    have hnext := (hnumbered.run before).move (.advance i)
    rw [run_append, run_cons]
    rcases settledAt_run hnext rfl (settledAt_of_comes hcomes) hkept with
      hlast | ⟨first, second, rfl, hreturns⟩
    · exact Or.inl hlast
    · refine Or.inr ⟨first, second, rfl, ?_⟩
      rwa [run_append, run_cons]
  · intro event value
    rw [dispatch, hattached, runListeners_eq]
    rfl
  · intro event value
    rw [dispatch, hattached, runListeners_eq]
    exact notes_runListeners _ event value _
  · exact fun event value => (Quiet.dispatch _ event value).roll
  · exact fun m notice hnotice => ⟨roll_taking _ m, move_of_notice hnotice⟩
  · intro hroom
    have hids : (((ofSettings settings link).enrolments moves).map fun e => e.2.1).Nodup := by
      rw [ids_enrolments hnumbered]
      exact Table.nodup_drawIds _ (Nat.le_of_lt hroom)
    apply htidy.nodup_ids hids
    intro event
    rw [hattached]
    exact enrolledFrom_sublist _ event [] moves

/-- A listener that breaks down does not keep the next one from its notice, nor from having another
attached. -/
example :
    let event := "device.onNameChanged"
    let listen := fun name reaction => Change.subscribe event ⟨name, .anything, reaction⟩
    let moves := [.begin (.change (listen "a" .breakDown)),
        .begin (.change (listen "b" (.enlist event "c")))] ++
      [0, 0, 0, 0, 0].map Move.advance ++ [.deliver "\x7b\"id\":1,\"result\":null\x7d" true] ++
      [0, 0, 0, 0, 1, 1, 1, 1, 1].map Move.advance
    let client := (ofSettings {} (.direct .up)).run moves
    let notified := client.dispatch event (.bool true)
    (client.listenersOf event).map (fun entry => entry.2.name) = ["a", "b"] ∧ notified.2 = 1 ∧
      notified.1.notes = [⟨"a", .bool true⟩, ⟨"b", .bool true⟩] ∧
      notified.1.jobs.get? 2 =
        some (.change (.subscribe event ⟨"c", .anything, .nothing⟩) .fresh) := by
  decide

end Client

end GatewayClient
