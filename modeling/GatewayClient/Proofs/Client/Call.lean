/-
What the steps of a call do.  A step changes the table and what has been sent, and nothing else of
the client but the link and who is ready; a call that ends or is given up leaves its entry.
-/
import GatewayClient.Proofs.Client.Work
import GatewayClient.Proofs.Correlation.Table

namespace GatewayClient

namespace CallStage

/-- The id and the slot of a call that has entered the table. -/
def entryOf? : CallStage → Option (UInt64 × Nat)
  | .fresh => none
  | .entered id slot | .crowded id slot | .waiting id slot _ | .overdue id slot
  | .over id slot _ => some (id, slot)

/-- The id of a call that has yet to hand its frame over. -/
def unsent? : CallStage → Option UInt64
  | .entered id _ | .crowded id _ => some id
  | _ => none

theorem entryOf?_eq_none {stage : CallStage} : stage.entryOf? = none ↔ stage = .fresh := by
  cases stage <;> simp [entryOf?]

end CallStage

namespace Client

/-- Apart from its link and who is ready, `c'` is `c` with this table and these frames sent. -/
def Hands (c : Client) (table : Table) (sent : List Json) (c' : Client) : Prop :=
  ∃ link ready, c' = { c with table := table, link := link, sent := sent, ready := ready }

/-- One step of a call: the table and the frames sent after it, and the stage that is reached. -/
inductive CallStep (c : Client) (call : Call) :
    CallStage → Table → List Json → CallStage → Prop where
  | enter (hparams : call.params.isSome) :
    CallStep c call .fresh (c.table.register call.method (some (c.timeoutOf call)) c.clock).1 c.sent
      (.entered c.table.newId c.table.slots.length)
  | hand {stage : CallStage} {id : UInt64} {slot : Nat} (hunsent : stage.unsent? = some id)
    (hentry : stage.entryOf? = some (id, slot)) :
    CallStep c call stage c.table (c.sent ++ [requestFrame call id])
      (.waiting id slot (c.now + c.timeoutOf call))
  | queue {id : UInt64} {slot : Nat} :
    CallStep c call (.entered id slot) c.table c.sent (.crowded id slot)
  | refuse {stage : CallStage} {id : UInt64} {slot : Nat} (hunsent : stage.unsent? = some id)
    (hentry : stage.entryOf? = some (id, slot)) :
    CallStep c call stage (c.table.abandon id).1 c.sent (.over id slot (.error .notConnected))
  | take {id : UInt64} {slot deadline : Nat} {outcome : Outcome}
    (hcontent : c.table.content slot = .filled outcome) :
    CallStep c call (.waiting id slot deadline) (c.table.takeOutcome slot).1 c.sent
      (.over id slot outcome)
  | miss {id : UInt64} {slot deadline : Nat} (hcontent : c.table.content slot = .closed) :
    CallStep c call (.waiting id slot deadline) c.table c.sent (.over id slot (.error .general))
  | expire {id : UInt64} {slot deadline : Nat} (hcontent : c.table.content slot = .empty)
    (hdeadline : deadline ≤ c.now) :
    CallStep c call (.waiting id slot deadline) (c.table.dropListener slot) c.sent
      (.overdue id slot)
  | cancel {id : UInt64} {slot : Nat} :
    CallStep c call (.overdue id slot) (c.table.cancel id).1 c.sent
      (.over id slot (.error .timeout))

/-- Bringing the frame of a call to the link comes to a step of the call: it hands the frame over,
queues for room, or is refused. -/
theorem sendCall_offered {c sender : Client} {call : Call} {id : UInt64} {slot : Nat}
    {step : SendStep} {stage : CallStage} {c' : Client} {stage' : CallStage} {link : Link}
    (hsender : sender = { c with
      link := link
      sent := if step = .sent then c.sent ++ [requestFrame call id] else c.sent })
    (hunsent : stage.unsent? = some id) (hentry : stage.entryOf? = some (id, slot))
    (hwaits : step = .waits → stage = .entered id slot)
    (hmoved : c.sendCall call id slot (sender, step) = .moved c' stage') :
    ∃ table sent, CallStep c call stage table sent stage' ∧ c.Hands table sent c' := by
  subst hsender
  cases step with
  | sent =>
      cases hmoved
      exact ⟨_, _, .hand hunsent hentry, link, c.ready, rfl⟩
  | failed =>
      cases hmoved
      exact ⟨_, _, .refuse hunsent hentry, link, c.ready, rfl⟩
  | waits =>
      cases hmoved
      rw [hwaits rfl]
      exact ⟨_, _, .queue, link, c.ready, rfl⟩

/-- What a step of a call can be. -/
theorem stepCall_moved {c c' : Client} {i : JobId} {call : Call} {stage stage' : CallStage}
    (hmoved : c.stepCall i call stage = .moved c' stage') :
    ∃ table sent, CallStep c call stage table sent stage' ∧ c.Hands table sent c' := by
  cases stage with
  | fresh =>
      rw [stepCall] at hmoved
      cases hparams : call.params with
      | none =>
          rw [hparams] at hmoved
          cases hmoved
      | some params =>
          rw [hparams] at hmoved
          cases hmoved
          exact ⟨_, _, .enter (by rw [hparams]; rfl), c.link, c.ready, rfl⟩
  | entered id slot =>
      obtain ⟨link, heq⟩ := c.offer_eq i (requestFrame call id)
      exact sendCall_offered heq rfl rfl (fun _ => rfl) hmoved
  | crowded id slot =>
      obtain ⟨link, heq⟩ := c.offerAgain_eq i (requestFrame call id)
      rw [stepCall] at hmoved
      rcases hsending : c.offerAgain i (requestFrame call id) with ⟨sender, step⟩
      rw [hsending] at hmoved heq
      cases step with
      | waits => cases hmoved
      | sent => exact sendCall_offered heq rfl rfl SendStep.noConfusion hmoved
      | failed => exact sendCall_offered heq rfl rfl SendStep.noConfusion hmoved
  | waiting id slot deadline =>
      rw [stepCall, lookInSlot] at hmoved
      cases hcontent : c.table.content slot with
      | filled outcome =>
          rw [hcontent] at hmoved
          cases hmoved
          exact ⟨_, _, .take hcontent, c.link, c.ready, rfl⟩
      | closed =>
          rw [hcontent] at hmoved
          cases hmoved
          exact ⟨_, _, .miss hcontent, c.link, c.ready, rfl⟩
      | empty =>
          rw [hcontent] at hmoved
          by_cases hdeadline : deadline ≤ c.now
          · simp only [if_pos hdeadline] at hmoved
            cases hmoved
            exact ⟨_, _, .expire hcontent hdeadline, c.link, c.ready, rfl⟩
          · simp only [if_neg hdeadline] at hmoved
            cases hmoved
  | overdue id slot =>
      cases hmoved
      exact ⟨_, _, .cancel, c.link, c.ready, rfl⟩
  | «over» id slot outcome => cases hmoved

/-- A call comes to an end with the outcome that it is over with, and without params that can be
written before it has begun. -/
theorem stepCall_over {c c' : Client} {i : JobId} {call : Call} {stage : CallStage}
    {outcome : Outcome} (hover : c.stepCall i call stage = .over c' outcome) :
    (stage = .fresh ∧ call.params = none ∧ c' = c ∧ outcome = .error .invalidParams) ∨
      ∃ id slot, stage = .over id slot outcome ∧
        c' = { c with table := c.table.leave id slot } := by
  cases stage with
  | fresh =>
      rw [stepCall] at hover
      cases hparams : call.params with
      | none =>
          rw [hparams] at hover
          cases hover
          exact Or.inl ⟨rfl, rfl, rfl, rfl⟩
      | some params =>
          rw [hparams] at hover
          cases hover
  | entered id slot =>
      rw [stepCall, sendCall] at hover
      cases hover
  | crowded id slot =>
      rw [stepCall] at hover
      split at hover
      · cases hover
      · rw [sendCall] at hover
        cases hover
  | waiting id slot deadline =>
      rw [stepCall, lookInSlot] at hover
      split at hover
      · cases hover
      · cases hover
      · split at hover <;> cases hover
  | overdue id slot => cases hover
  | «over» id slot outcome' =>
      cases hover
      exact Or.inr ⟨id, slot, rfl, rfl⟩

/-- A call that is given up leaves its entry, if it has one. -/
theorem dropCall_eq (c : Client) (i : JobId) {stage : CallStage} {id : UInt64} {slot : Nat}
    (hentry : stage.entryOf? = some (id, slot)) :
    c.Hands (c.table.leave id slot) c.sent (c.dropCall i stage) := by
  cases stage with
  | fresh => cases hentry
  | crowded id' slot' =>
      cases hentry
      obtain ⟨link, ready, heq⟩ := c.withdrawOffer_eq i
      exact ⟨link, ready, by rw [dropCall, heq]; rfl⟩
  | entered id' slot' => cases hentry; exact ⟨c.link, c.ready, rfl⟩
  | waiting id' slot' deadline => cases hentry; exact ⟨c.link, c.ready, rfl⟩
  | overdue id' slot' => cases hentry; exact ⟨c.link, c.ready, rfl⟩
  | «over» id' slot' outcome => cases hentry; exact ⟨c.link, c.ready, rfl⟩

theorem hands_of_over {c c' : Client} {i : JobId} {call : Call} {stage : CallStage}
    {outcome : Outcome} (hover : c.stepCall i call stage = .over c' outcome) :
    ∃ table, c.Hands table c.sent c' := by
  rcases stepCall_over hover with ⟨-, -, rfl, -⟩ | ⟨id, slot, -, rfl⟩
  · exact ⟨_, c'.link, c'.ready, rfl⟩
  · exact ⟨_, c.link, c.ready, rfl⟩

theorem hands_dropCall (c : Client) (i : JobId) (stage : CallStage) :
    ∃ table, c.Hands table c.sent (c.dropCall i stage) := by
  cases hentry : stage.entryOf? with
  | none =>
      rw [CallStage.entryOf?_eq_none.mp hentry]
      exact ⟨_, c.link, c.ready, rfl⟩
  | some entry => exact ⟨_, dropCall_eq c i hentry⟩

/-- A call cannot go on while it waits for room on a channel, or for its reply before its deadline.
-/
theorem stepCall_blocked {c : Client} {i : JobId} {call : Call} {stage : CallStage}
    (hblocked : c.stepCall i call stage = .blocked) :
    (∃ id slot channel, stage = .crowded id slot ∧ c.link = .channel channel ∧
      (channel.retry i (requestFrame call id)).2 = .waits) ∨
      ∃ id slot deadline, stage = .waiting id slot deadline ∧ c.table.content slot = .empty ∧
        c.now < deadline := by
  cases stage with
  | fresh =>
      rw [stepCall] at hblocked
      split at hblocked <;> cases hblocked
  | entered id slot => cases hblocked
  | crowded id slot =>
      rw [stepCall] at hblocked
      rcases hsending : c.offerAgain i (requestFrame call id) with ⟨sender, step⟩
      rw [hsending] at hblocked
      cases step with
      | sent => cases hblocked
      | failed => cases hblocked
      | waits =>
          rw [offerAgain] at hsending
          cases hlink : c.link with
          | direct state =>
              rw [hlink] at hsending
              cases state <;> simp [offer, hlink] at hsending
          | channel channel =>
              rw [hlink] at hsending
              exact Or.inl ⟨id, slot, channel, rfl, rfl, congrArg Prod.snd hsending⟩
  | waiting id slot deadline =>
      rw [stepCall, lookInSlot] at hblocked
      split at hblocked
      · cases hblocked
      · cases hblocked
      · next hcontent =>
          split at hblocked
          · cases hblocked
          · next hdeadline =>
              exact Or.inr ⟨id, slot, deadline, rfl, hcontent, Nat.lt_of_not_le hdeadline⟩
  | overdue id slot => cases hblocked
  | «over» id slot outcome => cases hblocked

/-- A step of a call reaches a stage in which the call has an entry, the same if it had one. -/
theorem CallStep.entryOf?_eq {c : Client} {call : Call} {stage stage' : CallStage} {table : Table}
    {sent : List Json} (h : CallStep c call stage table sent stage') :
    ∃ id slot, stage'.entryOf? = some (id, slot) ∧
      ((stage = .fresh ∧ id = c.table.newId ∧ slot = c.table.slots.length) ∨
        stage.entryOf? = some (id, slot)) := by
  cases h with
  | enter hparams => exact ⟨_, _, rfl, Or.inl ⟨rfl, rfl, rfl⟩⟩
  | hand hunsent hentry => exact ⟨_, _, rfl, Or.inr hentry⟩
  | queue => exact ⟨_, _, rfl, Or.inr rfl⟩
  | refuse hunsent hentry => exact ⟨_, _, rfl, Or.inr hentry⟩
  | take hcontent => exact ⟨_, _, rfl, Or.inr rfl⟩
  | miss hcontent => exact ⟨_, _, rfl, Or.inr rfl⟩
  | expire hcontent hdeadline => exact ⟨_, _, rfl, Or.inr rfl⟩
  | cancel => exact ⟨_, _, rfl, Or.inr rfl⟩

theorem CallStep.ne_fresh {c : Client} {call : Call} {stage stage' : CallStage} {table : Table}
    {sent : List Json} (h : CallStep c call stage table sent stage') : stage' ≠ .fresh := by
  rintro rfl
  obtain ⟨id, slot, hentry, -⟩ := h.entryOf?_eq
  cases hentry

end Client

end GatewayClient
