/-
The tally is only written.  Whatever it says, a client makes the same steps and comes to the same,
but for the tally itself.
-/
import GatewayClient.Proofs.Client.Move

namespace GatewayClient

namespace Table

def withTally (t : Table) (tally : Tally) : Table :=
  { t with tally := tally }

theorem resolve_withTally (t : Table) (tally : Tally) (id : UInt64) (outcome : Outcome) :
    ∃ tally', (t.withTally tally).resolve id outcome =
      ((t.resolve id outcome).1.withTally tally', (t.resolve id outcome).2) := by
  rw [resolve, resolve, show (t.withTally tally).pending = t.pending from rfl]
  cases t.pending.get? id with
  | none => exact ⟨_, rfl⟩
  | some call =>
      change ∃ tally', (if t.isListening call.slot = true then _ else _) = _
      dsimp only
      split <;> exact ⟨_, rfl⟩

theorem cancel_withTally (t : Table) (tally : Tally) (id : UInt64) :
    ∃ tally',
      (t.withTally tally).cancel id = ((t.cancel id).1.withTally tally', (t.cancel id).2) := by
  rw [cancel, cancel, show (t.withTally tally).pending = t.pending from rfl]
  cases t.pending.get? id with
  | none => exact ⟨_, rfl⟩
  | some call => exact ⟨_, rfl⟩

theorem abandon_withTally (t : Table) (tally : Tally) (id : UInt64) :
    ∃ tally', (t.withTally tally).abandon id =
      ((t.abandon id).1.withTally tally', (t.abandon id).2) := by
  rw [abandon, abandon, show (t.withTally tally).pending = t.pending from rfl]
  cases t.pending.get? id with
  | none => exact ⟨_, rfl⟩
  | some call => exact ⟨_, rfl⟩

theorem removeIfExpired_withTally (t : Table) (tally : Tally) (now : Nat) (id : UInt64) :
    ∃ tally', (t.withTally tally).removeIfExpired now id =
      ((t.removeIfExpired now id).1.withTally tally', (t.removeIfExpired now id).2) := by
  rw [removeIfExpired, removeIfExpired, show (t.withTally tally).pending = t.pending from rfl]
  cases t.pending.get? id with
  | none => exact ⟨_, rfl⟩
  | some call =>
      dsimp only
      split
      · exact cancel_withTally t tally id
      · exact ⟨_, rfl⟩

theorem takeOutcome_withTally (t : Table) (tally : Tally) (slot : Nat) :
    (t.withTally tally).takeOutcome slot =
      ((t.takeOutcome slot).1.withTally tally, (t.takeOutcome slot).2) := by
  rw [takeOutcome, takeOutcome, show (t.withTally tally).content slot = t.content slot from rfl]
  cases t.content slot <;> rfl

end Table

/-- Progress with its client changed. -/
def Progress.mapClient {σ α : Type} (change : Client → Client) : Progress σ α → Progress σ α
  | .blocked => .blocked
  | .moved client stage => .moved (change client) stage
  | .over client result => .over (change client) result

namespace Client

def withTally (c : Client) (tally : Tally) : Client :=
  { c with table := c.table.withTally tally }

section withTally

variable (c : Client) (tally : Tally)

theorem wake_withTally (job : JobId) :
    (c.withTally tally).wake job = (c.wake job).withTally tally := by
  rw [wake, wake, show (c.withTally tally).ready = c.ready from rfl]
  split <;> rfl

theorem wakeOption_withTally (job : Option JobId) :
    (c.withTally tally).wakeOption job = (c.wakeOption job).withTally tally := by
  cases job with
  | none => rfl
  | some job => exact wake_withTally c tally job

theorem wakeAll_withTally (jobs : List JobId) :
    (c.withTally tally).wakeAll jobs = (c.wakeAll jobs).withTally tally := by
  induction jobs generalizing c with
  | nil => rfl
  | cons job rest ih =>
      have hrest := ih (c.wake job)
      rw [← wake_withTally] at hrest
      exact hrest

theorem start_withTally (job : Job) :
    (c.withTally tally).start job = ((c.start job).1.withTally tally, (c.start job).2) :=
  congrArg (·, c.nextJob)
    (wake_withTally { c with jobs := c.jobs.put c.nextJob job, nextJob := c.nextJob + 1 } tally
      c.nextJob)

theorem offer_withTally (sender : JobId) (frame : Json) :
    (c.withTally tally).offer sender frame =
      ((c.offer sender frame).1.withTally tally, (c.offer sender frame).2) := by
  rw [offer, offer, show (c.withTally tally).link = c.link from rfl]
  cases c.link with
  | direct state => cases state <;> rfl
  | channel channel => rfl

theorem offerAgain_withTally (sender : JobId) (frame : Json) :
    (c.withTally tally).offerAgain sender frame =
      ((c.offerAgain sender frame).1.withTally tally, (c.offerAgain sender frame).2) := by
  rw [offerAgain, offerAgain, show (c.withTally tally).link = c.link from rfl]
  cases c.link with
  | direct state => exact offer_withTally c tally sender frame
  | channel channel => rfl

theorem withdrawOffer_withTally (sender : JobId) :
    (c.withTally tally).withdrawOffer sender = (c.withdrawOffer sender).withTally tally := by
  rw [withdrawOffer, withdrawOffer, show (c.withTally tally).link = c.link from rfl]
  cases c.link with
  | direct state => rfl
  | channel channel =>
      exact wakeOption_withTally { c with link := .channel (channel.giveUp sender).1 } tally
        (channel.giveUp sender).2

theorem perform_withTally (d : Deed) :
    (c.withTally tally).perform d = (c.perform d).withTally tally := by
  cases d with
  | note n => rfl
  | change change | answer call handler => exact congrArg Prod.fst (start_withTally c tally _)
  | errand change target =>
      rw [perform, start_withTally]
      rfl

theorem performAll_withTally (deeds : List Deed) :
    (c.withTally tally).performAll deeds = (c.performAll deeds).withTally tally := by
  induction deeds generalizing c with
  | nil => rfl
  | cons d rest ih => rw [performAll_cons, perform_withTally, ih, performAll_cons]

theorem dispatch_withTally (event : String) (value : Json) :
    ((c.withTally tally).dispatch event value).1 = (c.dispatch event value).1.withTally tally := by
  rw [dispatch, dispatch, runListeners_eq_performAll, runListeners_eq_performAll]
  exact performAll_withTally c tally _

theorem finishHandling_withTally (job answer : JobId) (outcome : Outcome) :
    (c.withTally tally).finishHandling job answer outcome =
      (c.finishHandling job answer outcome).withTally tally := by
  rw [finishHandling, finishHandling,
    show ((c.withTally tally).removeJob job) = (c.removeJob job).withTally tally from rfl]
  rw [show ((c.removeJob job).withTally tally).jobs = (c.removeJob job).jobs from rfl]
  split
  · next id method _ =>
      exact wake_withTally ((c.removeJob job).setJob answer (.answer id method (.ready outcome)))
        tally answer
  · rfl

theorem awaitSignal_withTally (name : String) (job : JobId) :
    (c.withTally tally).awaitSignal name job =
      ((c.awaitSignal name job).1.withTally tally, (c.awaitSignal name job).2) := by
  rw [awaitSignal, awaitSignal, show (c.withTally tally).signals = c.signals from rfl]
  split <;> rfl

theorem release_withTally (name : String) :
    (c.withTally tally).release name = (c.release name).withTally tally := by
  rw [release, release, show (c.withTally tally).signals = c.signals from rfl]
  split
  · rfl
  · next job rest _ =>
      let signal : Signal := { (c.signals.get? name).getD {} with waiting := rest }
      exact wake_withTally { c with signals := c.signals.put name signal } tally job

theorem abandon_withTally (id : UInt64) :
    ∃ tally', (c.withTally tally).abandon id = (c.abandon id).withTally tally' := by
  obtain ⟨tally', heq⟩ := Table.abandon_withTally c.table tally id
  refine ⟨tally', ?_⟩
  rw [abandon, show (c.withTally tally).table = c.table.withTally tally from rfl, heq]
  rfl

theorem leaveEntry_withTally (id : UInt64) (slot : Nat) :
    ∃ tally', (c.withTally tally).leaveEntry id slot = (c.leaveEntry id slot).withTally tally' := by
  obtain ⟨tally', heq⟩ := abandon_withTally c tally id
  exact ⟨tally', by rw [leaveEntry, heq]; rfl⟩

theorem sendCall_withTally (call : Call) (id : UInt64) (slot : Nat) (sender : Client)
    (step : SendStep) :
    ∃ tally', (c.withTally tally).sendCall call id slot (sender.withTally tally, step) =
      (c.sendCall call id slot (sender, step)).mapClient (·.withTally tally') := by
  cases step with
  | sent => exact ⟨tally, rfl⟩
  | waits => exact ⟨tally, rfl⟩
  | failed =>
      obtain ⟨tally', heq⟩ := abandon_withTally sender tally id
      refine ⟨tally', ?_⟩
      rw [sendCall, if_pos rfl, heq]
      rfl

theorem stepCall_withTally (job : JobId) (call : Call) (stage : CallStage) :
    ∃ tally', (c.withTally tally).stepCall job call stage =
      (c.stepCall job call stage).mapClient (·.withTally tally') := by
  cases stage with
  | fresh =>
      rw [stepCall, stepCall]
      cases call.params with
      | none => exact ⟨tally, rfl⟩
      | some params => exact ⟨_, rfl⟩
  | entered id slot =>
      rw [stepCall, stepCall, offer_withTally]
      exact sendCall_withTally c tally call id slot _ _
  | crowded id slot =>
      rw [stepCall, stepCall, offerAgain_withTally]
      rcases c.offerAgain job (requestFrame call id) with ⟨sender, step⟩
      cases step with
      | waits => exact ⟨tally, rfl⟩
      | sent => exact sendCall_withTally c tally call id slot sender .sent
      | failed => exact sendCall_withTally c tally call id slot sender .failed
  | waiting id slot deadline =>
      rw [stepCall, stepCall, lookInSlot, lookInSlot,
        show (c.withTally tally).table = c.table.withTally tally from rfl,
        Table.takeOutcome_withTally,
        show (c.table.withTally tally).content slot = c.table.content slot from rfl,
        show (c.withTally tally).now = c.now from rfl]
      cases c.table.content slot with
      | filled outcome => exact ⟨tally, rfl⟩
      | closed => exact ⟨tally, rfl⟩
      | empty =>
          dsimp only
          split <;> exact ⟨tally, rfl⟩
  | overdue id slot =>
      obtain ⟨tally', heq⟩ := Table.cancel_withTally c.table tally id
      refine ⟨tally', ?_⟩
      rw [stepCall, show (c.withTally tally).table = c.table.withTally tally from rfl, heq]
      rfl
  | «over» id slot outcome =>
      obtain ⟨tally', heq⟩ := leaveEntry_withTally c tally id slot
      exact ⟨tally', by rw [stepCall, heq]; rfl⟩

theorem dropCall_withTally (job : JobId) (stage : CallStage) :
    ∃ tally', (c.withTally tally).dropCall job stage = (c.dropCall job stage).withTally tally' := by
  cases stage with
  | fresh => exact ⟨tally, rfl⟩
  | crowded id slot =>
      rw [dropCall, withdrawOffer_withTally]
      exact leaveEntry_withTally _ tally id slot
  | entered id slot => exact leaveEntry_withTally c tally id slot
  | waiting id slot deadline => exact leaveEntry_withTally c tally id slot
  | overdue id slot => exact leaveEntry_withTally c tally id slot
  | «over» id slot outcome => exact leaveEntry_withTally c tally id slot

theorem gatesOf_withTally (change : Change) :
    (c.withTally tally).gatesOf change = c.gatesOf change := by
  cases change <;> rfl

theorem setGatesOf_withTally (change : Change) (gates : Gates) :
    (c.withTally tally).setGatesOf change gates = (c.setGatesOf change gates).withTally tally := by
  cases change <;> rfl

theorem enterChange_withTally (change : Change) :
    (c.withTally tally).enterChange change =
      ((c.enterChange change).1.withTally tally, (c.enterChange change).2) := by
  cases change with
  | subscribe event listener =>
      rw [enterChange, enterChange,
        show (c.withTally tally).isSubscribed event = c.isSubscribed event from rfl]
      split <;> rfl
  | unsubscribe event id =>
      have hdetach : (c.withTally tally).detach? event id =
          (c.detach? event id).map fun found => (found.1.withTally tally, found.2) := by
        rw [detach?, detach?,
          show (c.withTally tally).listenersOf event = c.listenersOf event from rfl]
        split
        · rfl
        · split <;> rfl
      rw [enterChange, enterChange, hdetach]
      rcases c.detach? event id with _ | ⟨client, last⟩
      · rfl
      · cases last <;> rfl
  | provide event handler =>
      rw [enterChange, enterChange,
        show (c.withTally tally).isProvided event = c.isProvided event from rfl]
      split <;> rfl
  | revoke event =>
      rw [enterChange, enterChange,
        show (c.withTally tally).isProvided event = c.isProvided event from rfl]
      split <;> rfl

theorem settleChange_withTally (change : Change) :
    (c.withTally tally).settleChange change =
      ((c.settleChange change).1.withTally tally, (c.settleChange change).2) := by
  cases change <;> rfl

theorem leaveGate_withTally (job : JobId) (change : Change) :
    (c.withTally tally).leaveGate job change = (c.leaveGate job change).withTally tally := by
  rw [leaveGate, leaveGate, gatesOf_withTally]
  dsimp only
  rw [setGatesOf_withTally, wakeOption_withTally]

theorem stepChange_withTally (job : JobId) (change : Change) (stage : ChangeStage) :
    ∃ tally', (c.withTally tally).stepChange job change stage =
      (c.stepChange job change stage).mapClient (·.withTally tally') := by
  cases stage with
  | fresh =>
      exact ⟨tally, by rw [stepChange, stepChange, gatesOf_withTally, setGatesOf_withTally]; rfl⟩
  | referring =>
      exact ⟨tally, by rw [stepChange, stepChange, gatesOf_withTally, setGatesOf_withTally]; rfl⟩
  | atGate =>
      refine ⟨tally, ?_⟩
      rw [stepChange, stepChange, gatesOf_withTally, enterChange_withTally]
      split <;> rfl
  | calling stage =>
      obtain ⟨tally', heq⟩ := stepCall_withTally c tally job (c.changeCall change) stage
      refine ⟨tally', ?_⟩
      rw [stepChange, stepChange,
        show (c.withTally tally).changeCall change = c.changeCall change from rfl, heq]
      rcases c.stepCall job (c.changeCall change) stage with
        _ | ⟨client, stage'⟩ | ⟨client, outcome⟩
      · rfl
      · rfl
      · cases outcome with
        | error f => rfl
        | ok value =>
            simp only [Progress.mapClient, settleChange_withTally]
  | releasing result =>
      refine ⟨tally, ?_⟩
      rw [stepChange, stepChange, gatesOf_withTally]
      dsimp only
      rw [setGatesOf_withTally, wakeOption_withTally]
      rfl
  | pruning result =>
      exact ⟨tally, by rw [stepChange, stepChange, gatesOf_withTally, setGatesOf_withTally]; rfl⟩

theorem dropChange_withTally (job : JobId) (change : Change) (stage : ChangeStage) :
    ∃ tally', (c.withTally tally).dropChange job change stage =
      (c.dropChange job change stage).withTally tally' := by
  cases stage with
  | fresh => exact ⟨tally, rfl⟩
  | referring =>
      refine ⟨tally, ?_⟩
      rw [dropChange, dropChange, gatesOf_withTally]
      dsimp only
      rw [setGatesOf_withTally, wakeOption_withTally]
  | atGate =>
      refine ⟨tally, ?_⟩
      rw [dropChange, dropChange, gatesOf_withTally]
      dsimp only
      rw [setGatesOf_withTally, wakeOption_withTally]
  | calling stage =>
      obtain ⟨tally', heq⟩ := dropCall_withTally c tally job stage
      exact ⟨tally', by rw [dropChange, heq, leaveGate_withTally]; rfl⟩
  | releasing result => exact ⟨tally, leaveGate_withTally c tally job change⟩
  | pruning result =>
      exact ⟨tally, by rw [dropChange, gatesOf_withTally, setGatesOf_withTally]; rfl⟩

theorem withEntry_withTally (id : UInt64) (table : Table) (tally' : Tally) :
    (c.withTally tally).withEntry id (table.withTally tally') =
      (c.withEntry id table).withTally tally' :=
  wakeOption_withTally { c with table := table } tally'
    ((c.table.pending.get? id).bind fun call => c.listenerOf call.slot)

theorem deliver_withTally (text : String) (answering : Bool) :
    ∃ tally', ((c.withTally tally).deliver text answering).1 =
      (c.deliver text answering).1.withTally tally' := by
  by_cases hreply : ∃ r, Inbound.parse text = .ok (.response r)
  · obtain ⟨r, hparse⟩ := hreply
    rw [deliver, deliver, hparse]
    simp only [deliverFrame, deliverResponse]
    cases r.callId? with
    | none => exact ⟨tally, rfl⟩
    | some id =>
        obtain ⟨tally', heq⟩ := Table.resolve_withTally c.table tally id r.outcome
        refine ⟨tally', ?_⟩
        simp only [resolve, show (c.withTally tally).table = c.table.withTally tally from rfl, heq,
          withEntry_withTally]
  · have hother := not_exists.mp hreply
    refine ⟨tally, ?_⟩
    rw [deliver_eq hother, deliver_eq hother]
    exact performAll_withTally c tally _

theorem finishChange_withTally (job : JobId) (change : Change)
    (result : Except Failure Changed) :
    (c.withTally tally).finishChange job change result =
      (c.finishChange job change result).withTally tally := by
  unfold finishChange
  dsimp only
  split <;> rfl

theorem stepProvideAll_withTally (job : JobId) (todo : List (String × Handler))
    (made : List String) (stage : ChangeStage) :
    ∃ tally', (c.withTally tally).stepProvideAll? job todo made stage =
      (c.stepProvideAll? job todo made stage).map (·.withTally tally') := by
  cases todo with
  | nil => exact ⟨tally, rfl⟩
  | cons head rest =>
      obtain ⟨event, handler⟩ := head
      obtain ⟨tally', heq⟩ := stepChange_withTally c tally job (.provide event handler) stage
      refine ⟨tally', ?_⟩
      rw [stepProvideAll?, stepProvideAll?, heq]
      rcases c.stepChange job (.provide event handler) stage with
        _ | ⟨client, stage'⟩ | ⟨client, result⟩
      · rfl
      · rfl
      · cases result with
        | error f => rfl
        | ok changed => cases changed <;> rfl

theorem stepWithdraw_withTally (job : JobId) (reason : Failure) (todo : List String)
    (stage : ChangeStage) :
    ∃ tally', (c.withTally tally).stepWithdraw? job reason todo stage =
      (c.stepWithdraw? job reason todo stage).map (·.withTally tally') := by
  cases todo with
  | nil => exact ⟨tally, rfl⟩
  | cons event rest =>
      obtain ⟨tally', heq⟩ := stepChange_withTally c tally job (.revoke event) stage
      refine ⟨tally', ?_⟩
      rw [stepWithdraw?, stepWithdraw?, heq]
      rcases c.stepChange job (.revoke event) stage with _ | ⟨client, stage'⟩ | ⟨client, result⟩ <;>
        rfl

theorem stepAnswer_withTally (job : JobId) (id : Json) (method : String) (stage : AnswerStage) :
    (c.withTally tally).stepAnswer? job id method stage =
      (c.stepAnswer? job id method stage).map (·.withTally tally) := by
  cases stage with
  | fresh handler params =>
      cases handler with
      | none => rfl
      | some handler =>
          rw [stepAnswer?, stepAnswer?, start_withTally]
          rfl
  | running => rfl
  | ready outcome =>
      rw [stepAnswer?, stepAnswer?, offer_withTally]
      rcases c.offer job (Response.ofOutcome id outcome).toJson with ⟨client, step⟩
      cases step <;> rfl
  | crowded outcome =>
      rw [stepAnswer?, stepAnswer?, offerAgain_withTally]
      rcases c.offerAgain job (Response.ofOutcome id outcome).toJson with ⟨client, step⟩
      cases step <;> rfl

theorem stepHandle_withTally (job answer : JobId) (handler : Handler) (method : String)
    (stage : HandlingStage) :
    (c.withTally tally).stepHandle? job answer handler method stage =
      (c.stepHandle? job answer handler method stage).map (·.withTally tally) := by
  cases handler with
  | mute =>
      rw [stepHandle?, stepHandle?, finishHandling_withTally]
      rfl
  | scripted name label request reply script =>
      cases stage with
      | fresh params =>
          rw [stepHandle?, stepHandle?]
          dsimp only
          cases Handler.invocation? label request method params with
          | none =>
              dsimp only
              rw [finishHandling_withTally]
              rfl
          | some invocation =>
              dsimp only
              cases script.wait with
              | none => rfl
              | some signal =>
                  dsimp only
                  rw [show (c.withTally tally).note name invocation.toJson =
                    (c.note name invocation.toJson).withTally tally from rfl, awaitSignal_withTally]
                  rfl
      | waiting signal invocation =>
          rw [stepHandle?, stepHandle?]
          rw [show (c.withTally tally).awaits signal job = c.awaits signal job from rfl]
          split <;> rfl
      | ending invocation =>
          rw [stepHandle?, stepHandle?, finishHandling_withTally]
          rfl

theorem stepSweep_withTally (job : JobId) (next : Nat) (stage : SweepStage) :
    ∃ tally', (c.withTally tally).stepSweep? job next stage =
      (c.stepSweep? job next stage).map (·.withTally tally') := by
  cases stage with
  | resting =>
      refine ⟨tally, ?_⟩
      rw [stepSweep?, stepSweep?, show (c.withTally tally).now = c.now from rfl]
      split <;> rfl
  | removing startedAt ids =>
      cases ids with
      | nil => exact ⟨tally, rfl⟩
      | cons id rest =>
          obtain ⟨tally', heq⟩ := Table.removeIfExpired_withTally c.table tally startedAt id
          refine ⟨tally', ?_⟩
          rw [stepSweep?, stepSweep?, sweepOne, sweepOne,
            show (c.withTally tally).table = c.table.withTally tally from rfl, heq,
            withEntry_withTally]
          rfl

theorem stepReceive_withTally (job : JobId) :
    ∃ tally', (c.withTally tally).stepReceive? job =
      (c.stepReceive? job).map (·.withTally tally') := by
  rw [stepReceive?, stepReceive?, show (c.withTally tally).inbox = c.inbox from rfl]
  cases c.inbox.frames with
  | nil =>
      refine ⟨tally, ?_⟩
      dsimp only
      split <;> rfl
  | cons text rest =>
      obtain ⟨tally', heq⟩ :=
        deliver_withTally { c with inbox := { c.inbox with frames := rest } } tally text true
      exact ⟨tally', congrArg some heq⟩

theorem stepJob_withTally (i : JobId) :
    ∃ tally', (c.withTally tally).stepJob? i = (c.stepJob? i).map (·.withTally tally') := by
  rw [stepJob?, stepJob?, show (c.withTally tally).jobs = c.jobs from rfl]
  cases c.jobs.get? i with
  | none => exact ⟨tally, rfl⟩
  | some job =>
      cases job with
      | call call expected stage =>
          obtain ⟨tally', heq⟩ := stepCall_withTally c tally i call stage
          refine ⟨tally', ?_⟩
          dsimp only
          rw [heq]
          rcases c.stepCall i call stage with _ | ⟨client, stage'⟩ | ⟨client, outcome⟩ <;> rfl
      | change change stage =>
          obtain ⟨tally', heq⟩ := stepChange_withTally c tally i change stage
          refine ⟨tally', ?_⟩
          dsimp only
          rw [heq]
          rcases c.stepChange i change stage with _ | ⟨client, stage'⟩ | ⟨client, result⟩
          · rfl
          · rfl
          · exact congrArg some (finishChange_withTally client tally' i change result)
      | provideAll todo made stage => exact stepProvideAll_withTally c tally i todo made stage
      | withdraw reason todo stage => exact stepWithdraw_withTally c tally i reason todo stage
      | answer id method stage => exact ⟨tally, stepAnswer_withTally c tally i id method stage⟩
      | handle answer handler method stage =>
          exact ⟨tally, stepHandle_withTally c tally i answer handler method stage⟩
      | sweep next stage => exact stepSweep_withTally c tally i next stage
      | receive => exact stepReceive_withTally c tally i

theorem dropJob_withTally (i : JobId) :
    ∃ tally', (c.withTally tally).dropJob i = (c.dropJob i).withTally tally' := by
  rw [dropJob, dropJob, show (c.withTally tally).jobs = c.jobs from rfl]
  cases c.jobs.get? i with
  | none => exact ⟨tally, rfl⟩
  | some job =>
      cases job with
      | call call expected stage =>
          obtain ⟨tally', heq⟩ := dropCall_withTally c tally i stage
          exact ⟨tally', congrArg (·.removeJob i) heq⟩
      | change change stage =>
          obtain ⟨tally', heq⟩ := dropChange_withTally c tally i change stage
          exact ⟨tally', congrArg (·.removeJob i) heq⟩
      | provideAll todo made stage =>
          cases todo with
          | nil => exact ⟨tally, rfl⟩
          | cons head rest =>
              obtain ⟨tally', heq⟩ :=
                dropChange_withTally c tally i (.provide head.1 head.2) stage
              exact ⟨tally', congrArg (·.removeJob i) heq⟩
      | withdraw reason todo stage =>
          cases todo with
          | nil => exact ⟨tally, rfl⟩
          | cons event rest =>
              obtain ⟨tally', heq⟩ := dropChange_withTally c tally i (.revoke event) stage
              exact ⟨tally', congrArg (·.removeJob i) heq⟩
      | answer id method stage =>
          cases stage with
          | crowded outcome =>
              exact ⟨tally, congrArg (·.removeJob i) (withdrawOffer_withTally c tally i)⟩
          | fresh | running | ready => exact ⟨tally, rfl⟩
      | handle | sweep | receive => exact ⟨tally, rfl⟩

/-- The tally makes no difference to what a move does, but to the tally. -/
theorem move_withTally (m : Move) :
    ∃ tally', (c.withTally tally).move m = (c.move m).withTally tally' := by
  cases m with
  | advance i =>
      obtain ⟨tally', heq⟩ := stepJob_withTally c tally i
      rw [move, move, heq]
      cases c.stepJob? i with
      | none => exact ⟨tally, rfl⟩
      | some client => exact ⟨tally', rfl⟩
  | begin activity =>
      exact ⟨tally, congrArg Prod.fst (start_withTally c tally activity.toJob)⟩
  | startSweeper => exact ⟨tally, congrArg Prod.fst (start_withTally c tally _)⟩
  | startReceiver => exact ⟨tally, congrArg Prod.fst (start_withTally c tally _)⟩
  | drop i => exact dropJob_withTally c tally i
  | deliver text answering =>
      exact deliver_withTally c tally text answering
  | dispatch event value =>
      exact ⟨tally, dispatch_withTally c tally event value⟩
  | arrive text =>
      exact ⟨tally, wakeAll_withTally
        { c with inbox := { c.inbox with frames := c.inbox.frames ++ [text] } } tally _⟩
  | closeInbox =>
      exact ⟨tally, wakeAll_withTally
        { c with inbox := { c.inbox with isOpen := false } } tally _⟩
  | takeFrame =>
      refine ⟨tally, ?_⟩
      rw [move, move, takeFrame, takeFrame, show (c.withTally tally).link = c.link from rfl]
      cases c.link with
      | direct state => rfl
      | channel channel =>
          exact wakeOption_withTally { c with link := .channel channel.takeFrame.1 } tally
            channel.takeFrame.2.2
  | closeChannel =>
      refine ⟨tally, ?_⟩
      rw [move, move, closeChannel, closeChannel, show (c.withTally tally).link = c.link from rfl]
      cases c.link with
      | direct state => rfl
      | channel channel =>
          exact wakeAll_withTally { c with link := .channel channel.close.1 } tally channel.close.2
  | setLink state =>
      refine ⟨tally, ?_⟩
      rw [move, move, setLink, setLink, show (c.withTally tally).link = c.link from rfl]
      cases c.link <;> rfl
  | release name => exact ⟨tally, release_withTally c tally name⟩
  | skip ms =>
      exact ⟨tally, wakeAll_withTally { c with now := c.now + ms } tally
        (dueJobs { c with now := c.now + ms })⟩
  | elapse ms =>
      let later := { c with now := c.now + ms, clock := c.clock + ms }
      exact ⟨tally, wakeAll_withTally later tally later.dueJobs⟩

/-- Nor does it to what a run does. -/
theorem run_withTally (moves : List Move) :
    ∃ tally', (c.withTally tally).run moves = (c.run moves).withTally tally' := by
  induction moves generalizing c tally with
  | nil => exact ⟨tally, rfl⟩
  | cons m rest ih =>
      obtain ⟨tally', heq⟩ := move_withTally c tally m
      rw [run_cons, run_cons, heq]
      exact ih (c.move m) tally'

end withTally

/-- Whether no call waits for a reply. -/
def Stray (c : Client) (r : Response) : Prop :=
  ∀ id, r.callId? = some id → c.table.pending.get? id = none

/-- The client after a move that takes a frame in, had the frame not come. -/
def withoutFrame (c : Client) : Move → Client
  | .advance _ => { c with inbox := { c.inbox with frames := c.inbox.frames.tail } }
  | _ => c

theorem deliver_of_stray {c : Client} {text : String} {r : Response} (hr : replyOf? text = some r)
    (hstray : c.Stray r) (answering : Bool) :
    ∃ tally, (c.deliver text answering).1 = c.withTally tally := by
  rw [deliver, parse_of_replyOf? hr]
  simp only [deliverFrame, deliverResponse]
  cases hid : r.callId? with
  | none => exact ⟨c.table.tally, rfl⟩
  | some id =>
      have hnone := hstray id hid
      simp only [resolve, withEntry, Table.resolve, hnone]
      exact ⟨_, rfl⟩

/-- A stray reply changes the tally and nothing else. -/
theorem move_of_stray {c : Client} {m : Move} {r : Response} (hreply : c.replyIn? m = some r)
    (hstray : c.Stray r) : ∃ tally, c.move m = (c.withoutFrame m).withTally tally := by
  obtain ⟨text, harrival, hr⟩ := Option.bind_eq_some_iff.mp hreply
  cases m with
  | deliver text' answering =>
      cases harrival
      exact deliver_of_stray hr hstray answering
  | advance i =>
      rw [arrival?] at harrival
      split at harrival
      · next hjob =>
          cases hframes : c.inbox.frames with
          | nil =>
              rw [hframes] at harrival
              cases harrival
          | cons text' rest =>
              rw [hframes] at harrival
              cases harrival
              have hcame : c.withoutFrame (.advance i) =
                  { c with inbox := { c.inbox with frames := rest } } := by
                rw [withoutFrame, hframes, List.tail_cons]
              obtain ⟨tally, heq⟩ := deliver_of_stray
                (c := { c with inbox := { c.inbox with frames := rest } }) hr hstray true
              refine ⟨tally, ?_⟩
              rw [move, stepJob?, hjob, hcame, ← heq]
              simp only [stepReceive?, hframes, Option.getD_some]
      · cases harrival
  | begin | startSweeper | startReceiver | drop | dispatch | arrive | closeInbox | takeFrame
  | closeChannel | setLink | release | elapse | skip => cases harrival

/-- Whatever happens after a stray reply comes to the same without it, but for the tally. -/
theorem run_of_stray {c : Client} {m : Move} {r : Response} (hreply : c.replyIn? m = some r)
    (hstray : c.Stray r) (moves : List Move) :
    ∃ tally, (c.move m).run moves = ((c.withoutFrame m).run moves).withTally tally := by
  obtain ⟨tally, heq⟩ := move_of_stray hreply hstray
  rw [heq]
  exact run_withTally (c.withoutFrame m) tally moves

end Client

end GatewayClient
