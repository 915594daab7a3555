/-
A frame that comes in touches what it addresses and nothing else.  A reply reaches the one call that
has its id, or is counted; a notice runs the listeners of its event; a call of the platform starts
one job that answers it; and what is no frame is nothing to the client.
-/
import GatewayClient.Proofs.Client.Books
import GatewayClient.Proofs.Client.FanOut
import GatewayClient.Proofs.Client.OwnStep
import GatewayClient.Proofs.Frame.RoundTrip

namespace GatewayClient

theorem Json.toWord?_eq_none {json : Json} (h : ∀ id, json ≠ ofWord id) : json.toWord? = none := by
  rw [Option.eq_none_iff_forall_ne_some]
  exact fun id hid => h id (toWord?_eq_some_iff.mp hid)

namespace Client

variable {c c' : Client} {i : JobId} {id : UInt64} {p : PendingCall} {r : Response}

/-- No time has passed between two states, and no job of the first has gone on. -/
structure AtOnce (c c' : Client) : Prop where
  now : c'.now = c.now
  nextJob : c.nextJob ≤ c'.nextJob
  jobs : ∀ i, i < c.nextJob → c'.jobs.get? i = c.jobs.get? i

/-- What a reply does whose id has an entry, where the call of job `i` has it.  The entry goes;
apart from that, from its slot and from the tally, nothing changes but who is ready.  A call whose
deadline has not passed has what the reply carries, and is over with it when its job is advanced;
one that has just passed its deadline hears no more of it. -/
structure Concludes (c : Client) (r : Response) (id : UInt64) (p : PendingCall) (i : JobId)
    (c' : Client) (matched : Bool) : Prop where
  holds : c.Holds i id p.slot
  alone : ∀ j id', c.entryAt j = some (id', p.slot) → j = i
  rest : ∃ slots tally ready, c' = { c with
    table := { c.table with
      pending := c.table.pending.erase id
      slots := slots
      tally := tally }
    ready := ready }
  others : ∀ slot, slot ≠ p.slot → c'.table.slotAt slot = c.table.slotAt slot
  completed : (∀ call, c.callAt i ≠ some (call, .overdue id p.slot)) →
    matched = true ∧ c'.table.content p.slot = .filled r.outcome ∧
      c'.table.tally = c.table.tally.credit 1 .resolved
  taken : ∀ call deadline, c.callAt i = some (call, .waiting id p.slot deadline) →
    (c'.move (.advance i)).callAt i = some (call, .over id p.slot r.outcome)
  late : ∀ call, c.callAt i = some (call, .overdue id p.slot) →
    matched = false ∧ c'.table.tally = c.table.tally.credit 1 .discarded

/-- What a notice does: it runs the listeners of its event and is told how many have run to their
end.  Listeners that do not call back only note what they hear. -/
structure Informs (c : Client) (notice : EventNotice) (c' : Client) (told : Delivery) : Prop where
  counted : told = .event
    ((c.listenersOf notice.event).countP fun entry => entry.2.completes notice.value)
  table : c'.table = c.table
  roll : c'.roll = c.roll
  gates : ∀ listeners, c'.gatesFor listeners = c.gatesFor listeners
  noted : (∀ entry ∈ c.listenersOf notice.event,
      entry.2.reaction = .nothing ∨ entry.2.reaction = .breakDown) →
    c' = { c with
      notes := c.notes ++ (c.listenersOf notice.event).flatMap fun entry =>
        entry.2.heard notice.value }

/-- In this state, a text that comes in touches only what it addresses.  What is no frame changes
nothing, nor does a reply whose id is no word, and one whose id has no entry is only counted.  Any
other reply goes to the one call that has the id, a notice to the listeners of its event, and a call
of the platform to the job that is started to answer it.  Nothing of it waits. -/
structure TouchesAddressed (c : Client) : Prop where
  malformed : ∀ text answering fault, Inbound.parse text = .error fault →
    c.deliver text answering = (c, .malformed)
  foreign : ∀ text answering r, Inbound.parse text = .ok (.response r) →
    (∀ id, r.id ≠ Json.ofWord id) → c.deliver text answering = (c, .response false)
  stray : ∀ text answering r id, Inbound.parse text = .ok (.response r) → r.id = Json.ofWord id →
    c.isOpen id = false →
    c.deliver text answering =
      (c.withTally (c.table.tally.credit 1 .discarded), .response false)
  reply : ∀ text answering r id p, Inbound.parse text = .ok (.response r) →
    r.id = Json.ofWord id → c.table.pending.get? id = some p →
    ∃ i matched, (c.deliver text answering).2 = .response matched ∧
      c.Concludes r id p i (c.deliver text answering).1 matched
  notice : ∀ text answering notice, Inbound.parse text = .ok (.event notice) →
    c.Informs notice (c.deliver text answering).1 (c.deliver text answering).2
  call : ∀ text call, Inbound.parse text = .ok (.providerCall call) →
    (∃ ready, c.deliver text true = ({ c with
      jobs := c.jobs.put c.nextJob
        (.answer call.id call.method (.fresh (c.providers.get? call.method) call.params))
      nextJob := c.nextJob + 1
      ready := ready }, .providerCall)) ∧
    c.deliver text false = (c, .providerCall)
  atOnce : ∀ text answering, c.AtOnce (c.deliver text answering).1

theorem deliver_of_response {text : String} (answering : Bool)
    (hparse : Inbound.parse text = .ok (.response r)) :
    c.deliver text answering = ((c.deliverResponse r).1, .response (c.deliverResponse r).2) := by
  rw [deliver, hparse]
  rfl

theorem deliverResponse_of_none (hid : r.callId? = none) : c.deliverResponse r = (c, false) := by
  rw [deliverResponse, hid]

theorem deliverResponse_of_some (hid : r.callId? = some id) :
    c.deliverResponse r = c.resolve id r.outcome := by
  rw [deliverResponse, hid]

theorem deliverResponse_of_word (hid : r.id = Json.ofWord id) :
    c.deliverResponse r = c.resolve id r.outcome :=
  deliverResponse_of_some (Json.toWord?_eq_some_iff.mpr hid)

/-- A reply for nobody is only counted. -/
theorem resolve_of_closed (hclosed : c.isOpen id = false) (outcome : Outcome) :
    c.resolve id outcome = (c.withTally (c.table.tally.credit 1 .discarded), false) := by
  have hget : c.table.pending.get? id = none := by
    rwa [isOpen, Table.isPending, Dictionary.contains, Option.isSome_eq_false_iff,
      Option.isNone_iff_eq_none] at hclosed
  have htable : c.table.resolve id outcome = (c.table.countDiscarded, false) := by
    rw [Table.resolve, hget]
  simp only [resolve, htable, withEntry, hget, Option.bind_none]
  rfl

/-- Apart from the table, a reply changes only who is ready. -/
theorem resolve_woken (c : Client) (id : UInt64) (outcome : Outcome) :
    ∃ ready, (c.resolve id outcome).1 =
      { c with table := (c.table.resolve id outcome).1, ready := ready } :=
  wakeOption_eq { c with table := (c.table.resolve id outcome).1 } _

theorem table_resolve (c : Client) (id : UInt64) (outcome : Outcome) :
    (c.resolve id outcome).1.table = (c.table.resolve id outcome).1 := by
  obtain ⟨ready, heq⟩ := c.resolve_woken id outcome
  rw [heq]

theorem matched_resolve (hget : c.table.pending.get? id = some p) (outcome : Outcome) :
    (c.resolve id outcome).2 = (c.table.slotAt p.slot).listening := by
  rw [← Table.isListening_eq, resolve, Table.resolve, hget]
  dsimp only
  split
  · next hlistening => exact hlistening.symm
  · next hdeaf => exact (Bool.eq_false_iff.mpr hdeaf).symm

theorem resolve_eq (hget : c.table.pending.get? id = some p) (outcome : Outcome) :
    ∃ slots tally ready, (c.resolve id outcome).1 = { c with
      table := { c.table with
        pending := c.table.pending.erase id
        slots := slots
        tally := tally }
      ready := ready } := by
  have htable : ∃ slots tally, (c.table.resolve id outcome).1 = { c.table with
      pending := c.table.pending.erase id
      slots := slots
      tally := tally } := by
    rw [Table.resolve, hget]
    dsimp only
    split <;> exact ⟨_, _, rfl⟩
  obtain ⟨slots, tally, htable⟩ := htable
  obtain ⟨ready, heq⟩ := c.resolve_woken id outcome
  exact ⟨slots, tally, ready, by rw [heq, htable]⟩

/-- A call that finds an outcome in its slot is over with it. -/
theorem callAt_of_filled {call : Call} {slot deadline : Nat} {outcome : Outcome}
    (hcall : c.callAt i = some (call, .waiting id slot deadline))
    (hcontent : c.table.content slot = .filled outcome) :
    (c.move (.advance i)).callAt i = some (call, .over id slot outcome) := by
  have hmoved : c.stepCall i call (.waiting id slot deadline) =
      .moved { c with table := (c.table.takeOutcome slot).1 } (.over id slot outcome) := by
    rw [stepCall, lookInSlot, hcontent]
  exact callAt_of_moved hcall hmoved

/-- A reply whose id has an entry goes to the one call that has it. -/
theorem Attended.concludes (h : c.Attended) (hget : c.table.pending.get? id = some p)
    (r : Response) :
    ∃ i, c.Concludes r id p i (c.resolve id r.outcome).1 (c.resolve id r.outcome).2 := by
  obtain ⟨i, hholds⟩ := h.held id p hget
  have htable := c.table_resolve id r.outcome
  have hmatched := matched_resolve hget r.outcome
  have htally := (Table.closedTo_resolve hget r.outcome).2
  rw [Table.isListening_eq, ← htable] at htally
  have hcompleted : ∀ {call stage}, c.callAt i = some (call, stage) →
      stage.listened? = some p.slot → (c.resolve id r.outcome).2 = true ∧
        (c.resolve id r.outcome).1.table.content p.slot = .filled r.outcome ∧
        (c.resolve id r.outcome).1.table.tally = c.table.tally.credit 1 .resolved := by
    intro call stage hcall hlistened
    have hlistening := h.reserved.listens i call stage p.slot hcall hlistened
    rw [hlistening, if_pos rfl] at htally
    refine ⟨hmatched.trans hlistening, ?_, htally⟩
    rw [htable]
    exact h.reserved.table.content_resolve hget hlistening _
  refine ⟨i, hholds, ?_, resolve_eq hget r.outcome, ?_, ?_, ?_, ?_⟩
  · intro j id' hentry
    exact h.reserved.apart j i id' id p.slot hentry hholds.entryAt
  · intro slot hne
    rw [htable, Table.slotAt_resolve]
    apply Table.slotAt_conclude_of_ne
    intro call hget'
    rw [hget] at hget'
    cases hget'
    exact Ne.symm hne
  · intro hlate
    rcases hholds.listened_or_overdue with ⟨call, stage, hcall, hlistened⟩ | ⟨call, hcall⟩
    · exact hcompleted hcall hlistened
    · exact absurd hcall (hlate call)
  · intro call deadline hcall
    have hcontent := (hcompleted hcall rfl).2.1
    have hwaiting : (c.resolve id r.outcome).1.callAt i =
        some (call, .waiting id p.slot deadline) := by
      obtain ⟨slots, tally, ready, heq⟩ := resolve_eq hget r.outcome
      rw [heq]
      exact hcall
    exact callAt_of_filled hwaiting hcontent
  · intro call hcall
    have hdeaf := h.unheard i call id p.slot hcall
    rw [hdeaf, if_neg Bool.false_ne_true] at htally
    exact ⟨hmatched.trans hdeaf, htally⟩

/-- A listener that does not call back only notes what it hears. -/
theorem runListener_of_plain (c : Client) (event : String) (value : Json) {listener : Listener}
    (hplain : listener.reaction = .nothing ∨ listener.reaction = .breakDown) :
    (c.runListener event value listener).1 =
      { c with notes := c.notes ++ listener.heard value } := by
  rw [runListener, Listener.heard]
  cases listener.payload.normalize value with
  | none =>
      rw [Option.toList_none, List.map_nil, List.append_nil]
  | some value =>
      rcases hplain with hplain | hplain <;> rw [hplain] <;> rfl

theorem runListeners_of_plain (c : Client) (event : String) (value : Json)
    {entries : List (UInt64 × Listener)}
    (hplain : ∀ entry ∈ entries,
      entry.2.reaction = .nothing ∨ entry.2.reaction = .breakDown) :
    (c.runListeners event value entries).1 =
      { c with notes := c.notes ++ entries.flatMap fun entry => entry.2.heard value } := by
  induction entries generalizing c with
  | nil =>
      rw [List.flatMap_nil, List.append_nil]
      rfl
  | cons entry rest ih =>
      obtain ⟨hentry, hrest⟩ := List.forall_mem_cons.mp hplain
      rw [runListeners]
      dsimp only
      rw [ih _ hrest, runListener_of_plain c event value hentry, List.flatMap_cons,
        List.append_assoc]

theorem Informs.of_dispatch (c : Client) (notice : EventNotice) :
    c.Informs notice (c.dispatch notice.event notice.value).1
      (.event (c.dispatch notice.event notice.value).2) where
  counted := by rw [dispatch, runListeners_eq]
  table := (Quiet.dispatch c notice.event notice.value).table
  roll := (Quiet.dispatch c notice.event notice.value).roll
  gates := (Quiet.dispatch c notice.event notice.value).gatesFor
  noted := fun hplain => runListeners_of_plain c notice.event notice.value hplain

namespace AtOnce

variable {c₁ : Client}

theorem of_jobs (hnow : c'.now = c.now) (hnext : c'.nextJob = c.nextJob)
    (hjobs : c'.jobs = c.jobs) : c.AtOnce c' :=
  ⟨hnow, Nat.le_of_eq hnext.symm, fun i _ => by rw [hjobs]⟩

theorem trans (h : c.AtOnce c₁) (h' : c₁.AtOnce c') : c.AtOnce c' where
  now := h'.now.trans h.now
  nextJob := Nat.le_trans h.nextJob h'.nextJob
  jobs := fun i hi => (h'.jobs i (Nat.lt_of_lt_of_le hi h.nextJob)).trans (h.jobs i hi)

theorem start (c : Client) (job : Job) : c.AtOnce (c.start job).1 := by
  obtain ⟨ready, heq⟩ := c.start_eq job
  rw [heq]
  exact ⟨rfl, Nat.le_succ _, fun i hi => Dictionary.get?_put_of_ne _ _ (Nat.ne_of_lt hi)⟩

theorem perform (c : Client) (d : Deed) : c.AtOnce (c.perform d) := by
  cases d with
  | note n => exact of_jobs rfl rfl rfl
  | errand change target => exact (start c (.change change .fresh)).trans (of_jobs rfl rfl rfl)
  | change | answer => exact start c _

theorem deliver (c : Client) (text : String) (answering : Bool) :
    c.AtOnce (c.deliver text answering).1 := by
  rcases c.deliver_cases text answering with ⟨r, ready, -, heq⟩ | ⟨-, heq⟩
  · rw [heq]
    exact of_jobs rfl rfl rfl
  · rw [heq]
    exact performAll_induction (fun _ => of_jobs rfl rfl rfl) trans perform c _

end AtOnce

/-- In every state that a run reaches, a text that comes in touches only what it addresses. -/
theorem touches_addressed (settings : Settings) (link : Link) (moves : List Move) :
    ((ofSettings settings link).run moves).TouchesAddressed := by
  have hattended := (Attended.ofSettings settings link).run moves
  constructor
  · intro text answering fault hparse
    rw [deliver, hparse]
  · intro text answering r hparse hid
    rw [deliver_of_response answering hparse, deliverResponse, Response.callId?,
      Json.toWord?_eq_none hid]
  · intro text answering r id hparse hid hclosed
    rw [deliver_of_response answering hparse, deliverResponse_of_word hid,
      resolve_of_closed hclosed]
  · intro text answering r id p hparse hid hget
    obtain ⟨i, hconcludes⟩ := hattended.concludes hget r
    rw [deliver_of_response answering hparse, deliverResponse_of_word hid]
    exact ⟨i, _, rfl, hconcludes⟩
  · intro text answering notice hparse
    rw [deliver, hparse]
    exact .of_dispatch _ notice
  · intro text call hparse
    rw [deliver, deliver, hparse]
    obtain ⟨ready, heq⟩ := start_eq ((ofSettings settings link).run moves)
      (.answer call.id call.method
        (.fresh (((ofSettings settings link).run moves).providers.get? call.method) call.params))
    exact ⟨⟨ready, congrArg (·, Delivery.providerCall) heq⟩, rfl⟩
  · intro text answering
    exact .deliver _ text answering

end Client

end GatewayClient
