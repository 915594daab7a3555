/-
When a registration takes effect.  The platform's success is put into the slot of the call that
waits for it; the listener or handler comes only when the job that waits has looked there.  So what
the platform sends right after its success may still find nobody, and what it sends after the job's
next two steps finds the listener or the handler.
-/
import GatewayClient.Proofs.Client.Answers
import GatewayClient.Proofs.Client.Reserved

namespace GatewayClient

namespace Client

/-- With a move, the platform's success comes in for the request of a change that waits for it. -/
def Acknowledges (c : Client) (m : Move) (i : JobId) (change : Change) : Prop :=
  ∃ id slot deadline call r value,
    c.workAt i = some (.change change (.calling (.waiting id slot deadline))) ∧
    c.table.pending.get? id = some call ∧ call.slot = slot ∧
    c.replyIn? m = some r ∧ r.callId? = some id ∧ r.outcome = .ok value

/-- Who comes to an event by a job does not have to go again. -/
def ListenerStays (c : Client) (i : JobId) (event : String) (since : List Move) : Prop :=
  ∀ first second entry, since = first ++ .advance i :: second →
    (c.run first).comes? event (.advance i) = some entry →
    ((c.run first).move (.advance i)).Throughout
      (fun client m => client.goes? event m ≠ some entry.1) second

/-- Who comes to provide for an event by a job is neither replaced nor revoked. -/
def HandlerStays (c : Client) (i : JobId) (event : String) (since : List Move) : Prop :=
  ∀ first second settled, since = first ++ .advance i :: second →
    (c.run first).settles? (.advance i) = some settled →
    ((c.run first).move (.advance i)).Throughout
      (fun client m => (∀ handler changed,
          client.settles? m ≠ some (.provide event handler, changed)) ∧
        client.passes? m ≠ some (.revoke event)) second

/-- A notice that comes in with a move is handed to a listener. -/
def HandsTo (c : Client) (m : Move) (notice : EventNotice) (listener : Listener) : Prop :=
  ∃ earlier id later, c.move m = ((c.taking m).runListeners notice.event notice.value
    (earlier ++ (id, listener) :: later)).1

/-- In a run, a registration that has been acknowledged takes effect when its job has made so many
more steps: every notice of the event is handed to the listener, and every call of the platform for
it is answered by the handler, until it has to go. -/
structure TakesEffect (steps : Nat) (c : Client) (moves : List Move) : Prop where
  subscribed : ∀ before m i event listener since, moves = before ++ m :: since →
    (c.run before).Acknowledges m i (.subscribe event listener) → .drop i ∉ since →
    steps ≤ since.count (.advance i) →
    ((c.run before).move m).ListenerStays i event since →
    ∀ m' notice, (c.run moves).notice? m' = some notice → notice.event = event →
      (c.run moves).HandsTo m' notice listener
  provided : ∀ before m i event handler since, moves = before ++ m :: since →
    (c.run before).Acknowledges m i (.provide event handler) → .drop i ∉ since →
    steps ≤ since.count (.advance i) →
    ((c.run before).move m).HandlerStays i event since →
    ∀ m' call, (c.run moves).providerCall? m' = some call → call.method = event →
      ∀ later, ((c.run moves).move m').Answered (c.run moves).nextJob call (some handler) later

variable {c c' : Client} {i : JobId} {m : Move} {change : Change} {value : Json} {event : String}

/-- How many steps a job has to make until the change is done that it has the platform's success
for: two while the success is in the slot of its call, and one when the call is over. -/
inductive Nears (c : Client) (i : JobId) (change : Change) (value : Json) : Nat → Prop
  | filled {id : UInt64} {slot deadline : Nat}
    (hwork : c.workAt i = some (.change change (.calling (.waiting id slot deadline))))
    (hcontent : c.table.content slot = .filled (.ok value)) : Nears c i change value 2
  | taken {id : UInt64} {slot : Nat}
    (hwork : c.workAt i = some (.change change (.calling (.over id slot (.ok value))))) :
    Nears c i change value 1

theorem entryAt_of_waiting {id : UInt64} {slot deadline : Nat}
    (hwork : c.workAt i = some (.change change (.calling (.waiting id slot deadline)))) :
    c.callAt i = some (c.changeCall change, .waiting id slot deadline) ∧
      c.entryAt i = some (id, slot) := by
  have hcall : c.callAt i = some (c.changeCall change, .waiting id slot deadline) := by
    rw [callAt, hwork]
    rfl
  exact ⟨hcall, entryAt_of_callAt hcall⟩

/-- The platform's success is put into the slot of the call that waits for it. -/
theorem Acknowledges.nears (hreserved : c.Reserved) (h : c.Acknowledges m i change) :
    ∃ value, (c.move m).Nears i change value 2 := by
  obtain ⟨id, slot, deadline, call, r, value, hwork, hget, rfl, hreply, hid, houtcome⟩ := h
  obtain ⟨hcall, hentry⟩ := entryAt_of_waiting hwork
  have hadvance : m ≠ .advance i := by
    rintro rfl
    rw [replyIn?_advance] at hreply
    · cases hreply
    · intro hreceive
      rw [workAt_of_get? hreceive] at hwork
      cases hwork
  have hdrop : m ≠ .drop i := by
    rintro rfl
    cases hreply
  have hwork' := (workAt_move_of_others hreserved.numbered hadvance hdrop).trans hwork
  have htable : (c.move m).table = c.tableAfter r := by
    cases callCase hreserved.numbered m with
    | reply hreply' hseen =>
        rw [hreply] at hreply'
        cases hreply'
        exact hseen.table
    | quiet hreply' | sweep _ hreply' | step _ hreply' | leave _ hreply' =>
        rw [hreply] at hreply'
        cases hreply'
  refine ⟨value, .filled hwork' ?_⟩
  rw [htable, tableAfter, hid, houtcome]
  exact hreserved.table.content_resolve hget (hreserved.listens i _ _ _ hcall rfl) _

/-- What others do brings it no further, and no further away. -/
theorem Nears.others {steps : Nat} (h : c.Nears i change value steps) (hreserved : c.Reserved)
    (hadvance : m ≠ .advance i) (hdrop : m ≠ .drop i) : (c.move m).Nears i change value steps := by
  have hsame := workAt_move_of_others hreserved.numbered hadvance hdrop
  cases h with
  | filled hwork hcontent =>
      refine .filled (hsame.trans hwork) ?_
      rw [Table.content_eq] at hcontent ⊢
      rw [hreserved.slotAt_of_others (entryAt_of_waiting hwork).2 ?_ hadvance hdrop]
      · exact hcontent
      · rw [hcontent]
        simp
  | taken hwork => exact .taken (hsame.trans hwork)

/-- The job takes the success out of its slot. -/
theorem Nears.take (h : c.Nears i change value 2) :
    (c.move (.advance i)).Nears i change value 1 := by
  cases h with
  | @filled id slot deadline hwork hcontent =>
      have hmoved : c.stepChange i change (.calling (.waiting id slot deadline)) =
          .moved { c with table := (c.table.takeOutcome slot).1 }
            (.calling (.over id slot (.ok value))) := by
        simp [stepChange, stepCall, lookInSlot, hcontent]
      obtain ⟨job, hmove, hwork'⟩ := move_of_moved hwork hmoved
      have hafter : (c.move (.advance i)).jobs.get? i = some job := by
        rw [hmove]
        exact Dictionary.get?_put_self _ _ _
      exact .taken (workAt_of_work? hafter hwork' rfl)

/-- The job whose call is over makes the change. -/
theorem Nears.settles (h : c.Nears i change value 1) :
    ∃ changed, c.settles? (.advance i) = some (change, changed) := by
  cases h with
  | @taken id slot hwork =>
      have hmoved : c.stepChange i change (.calling (.over id slot (.ok value))) =
          .moved ((c.leaveEntry id slot).settleChange change).1
            (.releasing (.ok ((c.leaveEntry id slot).settleChange change).2)) := rfl
      obtain ⟨job, hmove, hwork'⟩ := move_of_moved hwork hmoved
      have hafter : (c.move (.advance i)).jobs.get? i = some job := by
        rw [hmove]
        exact Dictionary.get?_put_self _ _ _
      have hbefore : c.settledAt i = none := by
        rw [settledAt, hwork]
        rfl
      refine ⟨((c.leaveEntry id slot).settleChange change).2, ?_⟩
      rw [settles?, hbefore]
      exact settledAt_of_work? hafter hwork'

/-- In a run in which its job makes the steps that are left, the change is made. -/
theorem Nears.run {steps : Nat} (h : c.Nears i change value steps) (hreserved : c.Reserved)
    {since : List Move} (hkept : .drop i ∉ since) (hsteps : steps ≤ since.count (.advance i)) :
    ∃ first second changed, since = first ++ .advance i :: second ∧
      (c.run first).settles? (.advance i) = some (change, changed) := by
  induction since generalizing c steps with
  | nil => cases h <;> exact absurd hsteps (by simp)
  | cons m rest ih =>
      rw [List.mem_cons, not_or] at hkept
      have hlater : ∀ {steps'}, (c.move m).Nears i change value steps' →
          steps' ≤ rest.count (.advance i) →
          ∃ first second changed, m :: rest = first ++ .advance i :: second ∧
            (c.run first).settles? (.advance i) = some (change, changed) := by
        intro steps' hnext hleft
        obtain ⟨first, second, changed, rfl, hsettles⟩ :=
          ih hnext (hreserved.move m) hkept.2 hleft
        exact ⟨m :: first, second, changed, rfl, hsettles⟩
      by_cases hm : m = .advance i
      · subst hm
        rw [List.count_cons_self] at hsteps
        cases h with
        | filled hwork hcontent =>
            exact hlater (Nears.filled hwork hcontent).take (Nat.le_of_succ_le_succ hsteps)
        | taken hwork =>
            obtain ⟨changed, hsettles⟩ := (Nears.taken hwork).settles
            exact ⟨[], rest, changed, rfl, hsettles⟩
      · rw [List.count_cons_of_ne hm] at hsteps
        exact hlater (h.others hreserved hm (Ne.symm hkept.1)) hsteps

/-- A notice is handed to everybody who listens to its event. -/
theorem handsTo_of_mem {notice : EventNotice} {id : UInt64} {listener : Listener}
    (hmem : (id, listener) ∈ c.listenersOf notice.event) (hnotice : c.notice? m = some notice) :
    c.HandsTo m notice listener := by
  obtain ⟨earlier, later, hsplit⟩ := List.append_of_mem hmem
  refine ⟨earlier, id, later, ?_⟩
  rw [move_of_notice hnotice, dispatch, listenersOf_of_roll (roll_taking c m), hsplit]

/-- Who has come to provide for an event does so as long as nobody replaces or revokes it. -/
theorem get?_providers_run (hnumbered : c.Numbered) {moves : List Move}
    (hstays : c.Throughout (fun client m => (∀ handler changed,
        client.settles? m ≠ some (.provide event handler, changed)) ∧
      client.passes? m ≠ some (.revoke event)) moves) :
    (c.run moves).providers.get? event = c.providers.get? event := by
  induction moves generalizing c with
  | nil => rfl
  | cons m rest ih =>
      obtain ⟨⟨hprovide, hrevoke⟩, hrest⟩ := hstays
      rw [run_cons, ih (hnumbered.move m) hrest]
      exact get?_providers_move hnumbered hprovide hrevoke

/-- In every run of a client, an acknowledged registration has taken effect when its job has made
two more steps: it takes the success out of its slot, and brings the listener or the handler. -/
theorem takes_effect (settings : Settings) (link : Link) (moves : List Move) :
    (ofSettings settings link).TakesEffect 2 moves := by
  have hreserved := Reserved.ofSettings settings link
  constructor
  · rintro before m i event listener since rfl hacknowledges hkept hsteps hstays m' notice
      hnotice rfl
    have hafter := (hreserved.run before).move m
    obtain ⟨value, hnears⟩ := hacknowledges.nears (hreserved.run before)
    obtain ⟨first, second, changed, rfl, hsettles⟩ := hnears.run hafter hkept hsteps
    have hfirst := (hafter.run first).numbered
    obtain ⟨id, -, hcomes⟩ := comes?_of_settles hfirst hsettles
    have hmem := mem_listenersOf_run (hfirst.move (.advance i))
      (mem_listenersOf_of_comes hfirst hcomes) (hstays first second _ rfl hcomes)
    have hlistens : (id, listener) ∈ ((ofSettings settings link).run
        (before ++ m :: (first ++ .advance i :: second))).listenersOf notice.event := by
      simpa only [run_append, run_cons] using hmem
    exact handsTo_of_mem hlistens hnotice
  · rintro before m i event handler since rfl hacknowledges hkept hsteps hstays m' call hcall rfl
      later
    have hafter := (hreserved.run before).move m
    obtain ⟨value, hnears⟩ := hacknowledges.nears (hreserved.run before)
    obtain ⟨first, second, changed, rfl, hsettles⟩ := hnears.run hafter hkept hsteps
    have hfirst := (hafter.run first).numbered
    have hget := get?_providers_run (hfirst.move (.advance i)) (hstays first second _ rfl hsettles)
    rw [get?_providers_of_settles hfirst hsettles] at hget
    have hprovided : ((ofSettings settings link).run
        (before ++ m :: (first ++ .advance i :: second))).providers.get? call.method =
          some handler := by
      simpa only [run_append, run_cons] using hget
    rw [← hprovided]
    exact answered_of_providerCall (hreserved.numbered.run _)
      ((Served.ofSettings settings link).run hreserved.numbered _) hcall later

/-- A notice that comes after the two steps is heard. -/
example :
    let event := "device.onNameChanged"
    ((ofSettings {} (.direct .up)).run
      ([.begin (.change (.subscribe event ⟨"name", .anything, .nothing⟩))] ++
        [0, 0, 0, 0, 0].map Move.advance ++ [.deliver "\x7b\"id\":1,\"result\":null\x7d" true] ++
        [0, 0].map Move.advance ++ [.dispatch event (.bool true)])).notes =
      [⟨"name", .bool true⟩] := by
  decide +kernel

/-- A listener to whom a notice is handed notes it. -/
theorem HandsTo.notes {notice : EventNotice} {listener : Listener}
    (h : c.HandsTo m notice listener) :
    ∃ earlier later, (c.move m).notes =
      c.notes ++ (earlier ++ (listener.heard notice.value ++ later)) := by
  obtain ⟨earlier, id, later, hmove⟩ := h
  have hnotes : (c.taking m).notes = c.notes := by cases m <;> rfl
  rw [hmove, runListeners_eq, notes_runListeners, hnotes, List.flatMap_append, List.flatMap_cons]
  exact ⟨_, _, rfl⟩

/-- What the platform sends before the job has looked into its slot finds nobody: the listener does
not hear of a notice, and a call is refused. -/
theorem takes_no_effect_at_once :
    let success : Move := .deliver "\x7b\"id\":1,\"result\":null\x7d" true
    let asking := [0, 0, 0, 0, 0].map Move.advance
    let client := ofSettings {} (.direct .up)
    ¬ client.TakesEffect 0 (.begin (.change (.subscribe "device.onNameChanged"
        ⟨"name", .anything, .nothing⟩)) :: asking ++ [success]) ∧
      ¬ client.TakesEffect 0 (.begin (.change (.provide "keyboard.onRequestStandard"
        (.scripted "keyboard" none .anything .anything ⟨none, .outcome (.ok .null)⟩))) ::
          asking ++ [success]) := by
  intro success asking client
  have hstays : ∀ {i first second}, ([] : List Move) ≠ first ++ .advance i :: second := by simp
  constructor
  · intro h
    let notice : EventNotice := ⟨"device.onNameChanged", .bool true⟩
    have hands := h.subscribed _ success 0 "device.onNameChanged" ⟨"name", .anything, .nothing⟩ []
      rfl ⟨1, 0, 1000, ⟨0, 0, "device.onNameChanged", 1000⟩, ⟨"2.0", .integer 1, some .null, none⟩,
        .null, by decide +kernel, by decide +kernel, rfl, by decide +kernel, by decide, rfl⟩
      List.not_mem_nil (Nat.zero_le _) (fun _ _ _ heq => absurd heq hstays)
      (.deliver "\x7b\"event\":\"device.onNameChanged\",\"value\":true\x7d" true) notice
      (by decide +kernel) rfl
    obtain ⟨earlier, later, hnotes⟩ := hands.notes
    have hheard : Listener.heard notice.value ⟨"name", .anything, .nothing⟩ =
        [⟨"name", notice.value⟩] := by decide
    rw [show (Client.move _ _).notes = [] by decide +kernel, hheard] at hnotes
    simp at hnotes
  · intro h
    let call : ProviderCall := ⟨.integer 5, "keyboard.onRequestStandard", .null⟩
    have hanswered := h.provided _ success 0 "keyboard.onRequestStandard"
      (.scripted "keyboard" none .anything .anything ⟨none, .outcome (.ok .null)⟩) []
      rfl ⟨1, 0, 1000, ⟨0, 0, "keyboard.onRequestStandard", 1000⟩,
        ⟨"2.0", .integer 1, some .null, none⟩, .null, by decide +kernel, by decide +kernel, rfl,
        by decide +kernel, by decide, rfl⟩
      List.not_mem_nil (Nat.zero_le _) (fun _ _ _ heq => absurd heq hstays)
      (.deliver "\x7b\"id\":5,\"method\":\"keyboard.onRequestStandard\",\"params\":null\x7d" true)
      call (by decide +kernel) rfl [.advance 1, .advance 1]
    exact absurd hanswered.once (by decide +kernel)

end Client

end GatewayClient
