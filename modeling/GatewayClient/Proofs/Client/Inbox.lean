/-
The inbox is a queue.  What comes through the channel is put at its end, who takes in what has come
takes out what stands first and delivers it with the same step, and nothing else touches it.
-/
import GatewayClient.Proofs.Client.Series
import GatewayClient.Proofs.Client.Sparing

namespace GatewayClient

/-- The text that comes through the channel with a move. -/
def Move.brought? : Move → Option String
  | .arrive text => some text
  | _ => none

namespace Client

variable {c c' c₁ : Client} {i j : JobId} {m : Move} {moves : List Move}

/-- What has come in, and which listeners were attached under their names, is the same. -/
structure Apart (c c' : Client) : Prop where
  inbox : c'.inbox = c.inbox
  attached : c'.attached = c.attached

namespace Apart

theorem refl (c : Client) : Apart c c :=
  ⟨rfl, rfl⟩

theorem trans (h : Apart c c₁) (h' : Apart c₁ c') : Apart c c' :=
  ⟨h'.inbox.trans h.inbox, h'.attached.trans h.attached⟩

theorem ofActs (h : c.Acts c') : Apart c c' := by
  obtain ⟨table, link, sent, events, nextListener, eventGates, providers, providerGates, ready,
    rfl⟩ := h
  exact ⟨rfl, rfl⟩

theorem wake (c : Client) (job : JobId) : Apart c (c.wake job) := by
  obtain ⟨ready, heq⟩ := c.wake_eq job
  rw [heq]
  exact ⟨rfl, rfl⟩

theorem wakeOption (c : Client) (next : Option JobId) : Apart c (c.wakeOption next) := by
  obtain ⟨ready, heq⟩ := c.wakeOption_eq next
  rw [heq]
  exact ⟨rfl, rfl⟩

theorem wakeAll (c : Client) (jobs : List JobId) : Apart c (c.wakeAll jobs) := by
  obtain ⟨ready, heq⟩ := c.wakeAll_eq jobs
  rw [heq]
  exact ⟨rfl, rfl⟩

theorem start (c : Client) (job : Job) : Apart c (c.start job).1 := by
  obtain ⟨ready, heq⟩ := c.start_eq job
  rw [heq]
  exact ⟨rfl, rfl⟩

theorem offer (c : Client) (sender : JobId) (frame : Json) :
    Apart c (c.offer sender frame).1 := by
  obtain ⟨link, heq⟩ := c.offer_eq sender frame
  rw [heq]
  exact ⟨rfl, rfl⟩

theorem offerAgain (c : Client) (sender : JobId) (frame : Json) :
    Apart c (c.offerAgain sender frame).1 := by
  obtain ⟨link, heq⟩ := c.offerAgain_eq sender frame
  rw [heq]
  exact ⟨rfl, rfl⟩

theorem perform (c : Client) (d : Deed) : Apart c (c.perform d) := by
  cases d with
  | note n => exact ⟨rfl, rfl⟩
  | errand change target => exact (start c (.change change .fresh)).trans ⟨rfl, rfl⟩
  | change | answer => exact start c _

theorem performAll (c : Client) (deeds : List Deed) : Apart c (c.performAll deeds) :=
  performAll_induction refl trans perform c deeds

theorem dispatch (c : Client) (event : String) (value : Json) :
    Apart c (c.dispatch event value).1 := by
  rw [Client.dispatch, runListeners_eq_performAll]
  exact performAll c _

theorem deliver (c : Client) (text : String) (answering : Bool) :
    Apart c (c.deliver text answering).1 := by
  rcases c.deliver_cases text answering with ⟨r, ready, -, heq⟩ | ⟨-, heq⟩
  · rw [heq]
    exact ⟨rfl, rfl⟩
  · rw [heq]
    exact performAll c _

theorem finishHandling (c : Client) (i answer : JobId) (outcome : Outcome) :
    Apart c (c.finishHandling i answer outcome) := by
  have hset : ∀ job, Apart c ((c.removeJob i).setJob answer job) := fun _ => ⟨rfl, rfl⟩
  rcases c.finishHandling_cases i answer outcome with heq | ⟨id, method, -, heq⟩
  · rw [heq]
    exact ⟨rfl, rfl⟩
  · rw [heq]
    exact (hset _).trans (wake _ answer)

theorem stepAnswer? {id : Json} {method : String} {stage : AnswerStage}
    (hstep : c.stepAnswer? i id method stage = some c') : Apart c c' := by
  cases stage with
  | fresh handler params =>
      cases handler with
      | none =>
          cases hstep
          exact ⟨rfl, rfl⟩
      | some handler =>
          cases hstep
          exact (start c (.handle i handler method (.fresh params))).trans ⟨rfl, rfl⟩
  | running => cases hstep
  | ready outcome =>
      have hoffer := offer c i (Response.ofOutcome id outcome).toJson
      rw [Client.stepAnswer?] at hstep
      split at hstep
      · next heq =>
          cases hstep
          exact (heq ▸ hoffer).trans ⟨rfl, rfl⟩
      · next heq =>
          cases hstep
          exact (heq ▸ hoffer).trans ⟨rfl, rfl⟩
  | crowded outcome =>
      have hoffer := offerAgain c i (Response.ofOutcome id outcome).toJson
      rw [Client.stepAnswer?] at hstep
      split at hstep
      · cases hstep
      · next heq =>
          cases hstep
          exact (heq ▸ hoffer).trans ⟨rfl, rfl⟩

theorem stepHandle? {answer : JobId} {handler : Handler} {method : String} {stage : HandlingStage}
    (hstep : c.stepHandle? i answer handler method stage = some c') : Apart c c' := by
  rcases stepHandle_cases hstep with ⟨outcome, rfl⟩ | ⟨signals, notes, stage', rfl⟩
  · exact finishHandling c i answer outcome
  · exact ⟨rfl, rfl⟩

end Apart

theorem inbox_finishChange (c : Client) (i : JobId) (change : Change)
    (result : Except Failure Changed) : (c.finishChange i change result).inbox = c.inbox := by
  unfold finishChange
  dsimp only
  split <;> rfl

/-- The inbox after a move. -/
def inboxAfter (c : Client) : Move → Inbox
  | .arrive text => { c.inbox with frames := c.inbox.frames ++ [text] }
  | .closeInbox => { c.inbox with isOpen := false }
  | .advance i =>
    if c.jobs.get? i = some .receive then { c.inbox with frames := c.inbox.frames.tail }
    else c.inbox
  | _ => c.inbox

theorem inbox_stepReceive (hstep : c.stepReceive? i = some c') :
    c'.inbox = { c.inbox with frames := c.inbox.frames.tail } := by
  rw [stepReceive?] at hstep
  split at hstep
  · next text rest hframes =>
      cases hstep
      rw [(Apart.deliver _ text true).inbox, hframes]
      rfl
  · next hframes =>
      split at hstep
      · cases hstep
      · cases hstep
        rw [hframes]
        exact congrArg (Inbox.mk · c.inbox.isOpen) hframes

theorem inbox_stepProvideAll {todo : List (String × Handler)} {made : List String}
    {stage : ChangeStage} (hstep : c.stepProvideAll? i todo made stage = some c') :
    c'.inbox = c.inbox := by
  cases todo with
  | nil =>
      cases hstep
      rfl
  | cons head rest =>
      obtain ⟨event, handler⟩ := head
      rw [stepProvideAll?] at hstep
      split at hstep
      · cases hstep
      · next hmoved =>
          cases hstep
          exact (Apart.ofActs (stepChange_moved hmoved).acts).inbox
      all_goals
        next hover =>
          cases hstep
          rw [(stepChange_over hover).2]
          exact (Apart.ofActs (.ofRearranges (.setGatesOf c _ _))).inbox

theorem inbox_stepWithdraw {reason : Failure} {todo : List String} {stage : ChangeStage}
    (hstep : c.stepWithdraw? i reason todo stage = some c') : c'.inbox = c.inbox := by
  cases todo with
  | nil =>
      cases hstep
      rfl
  | cons event rest =>
      rw [stepWithdraw?] at hstep
      split at hstep
      · cases hstep
      · next hmoved =>
          cases hstep
          exact (Apart.ofActs (stepChange_moved hmoved).acts).inbox
      · next hover =>
          cases hstep
          rw [(stepChange_over hover).2]
          exact (Apart.ofActs (.ofRearranges (.setGatesOf c _ _))).inbox

theorem inbox_stepSweep {next : Nat} {stage : SweepStage}
    (hstep : c.stepSweep? i next stage = some c') : c'.inbox = c.inbox := by
  cases stage with
  | resting =>
      rw [stepSweep?] at hstep
      split at hstep
      · cases hstep
      · cases hstep
        rfl
  | removing startedAt ids =>
      cases ids with
      | nil =>
          cases hstep
          rfl
      | cons id rest =>
          cases hstep
          exact (Apart.wakeOption _ _).inbox

/-- A step of a job that takes nothing in. -/
theorem inbox_stepJob (hreceive : c.jobs.get? i ≠ some .receive) (hstep : c.stepJob? i = some c') :
    c'.inbox = c.inbox := by
  rw [stepJob?] at hstep
  split at hstep
  · cases hstep
  · split at hstep
    · cases hstep
    · next hmoved =>
        cases hstep
        exact (Apart.ofActs (.stepCall hmoved)).inbox
    · next hover =>
        cases hstep
        exact (Apart.ofActs (.stepCall_over hover)).inbox
  · split at hstep
    · cases hstep
    · next hmoved =>
        cases hstep
        exact (Apart.ofActs (stepChange_moved hmoved).acts).inbox
    · next hover =>
        cases hstep
        rw [inbox_finishChange, (stepChange_over hover).2]
        exact (Apart.ofActs (.ofRearranges (.setGatesOf c _ _))).inbox
  · exact inbox_stepProvideAll hstep
  · exact inbox_stepWithdraw hstep
  · exact (Apart.stepAnswer? hstep).inbox
  · exact (Apart.stepHandle? hstep).inbox
  · exact inbox_stepSweep hstep
  · next hget => exact absurd hget hreceive

theorem inbox_dropJob (c : Client) (i : JobId) : (c.dropJob i).inbox = c.inbox := by
  have hwithdraw : (c.withdrawOffer i).inbox = c.inbox := by
    obtain ⟨link, ready, heq⟩ := c.withdrawOffer_eq i
    rw [heq]
  have hchange : ∀ change stage, (c.dropChange i change stage).inbox = c.inbox :=
    fun change stage => (Apart.ofActs (.dropChange c i change stage)).inbox
  rw [dropJob]
  split
  · rfl
  · split
    · exact (Apart.ofActs (.dropCall c i _)).inbox
    · exact hchange _ _
    · exact hchange _ _
    · exact hchange _ _
    · exact hwithdraw
    · rfl

/-- Nothing touches the inbox but what comes through the channel, its end, and who takes it in. -/
theorem inbox_move (c : Client) (m : Move) : (c.move m).inbox = c.inboxAfter m := by
  cases m with
  | advance i =>
      rw [move, inboxAfter]
      split
      · next hget =>
          rw [stepJob?, hget]
          dsimp only
          cases hstep : c.stepReceive? i with
          | some c' => exact inbox_stepReceive hstep
          | none =>
              rw [stepReceive?] at hstep
              split at hstep
              · cases hstep
              · next hframes =>
                  rw [Option.getD_none, pause, hframes, List.tail_nil, ← hframes]
      · next hget =>
          cases hstep : c.stepJob? i with
          | some c' => exact inbox_stepJob hget hstep
          | none => rfl
  | begin activity => exact (Apart.start c _).inbox
  | startSweeper | startReceiver => exact (Apart.start c _).inbox
  | drop i => exact inbox_dropJob c i
  | deliver text answering => exact (Apart.deliver c text answering).inbox
  | dispatch event value => exact (Apart.dispatch c event value).inbox
  | arrive text => exact (Apart.wakeAll _ _).inbox
  | closeInbox => exact (Apart.wakeAll _ _).inbox
  | takeFrame =>
      rw [move, takeFrame]
      split
      · rfl
      · exact (Apart.wakeOption _ _).inbox
  | closeChannel =>
      rw [move, closeChannel]
      split
      · rfl
      · exact (Apart.wakeAll _ _).inbox
  | setLink state =>
      rw [move, setLink]
      split <;> rfl
  | release name =>
      rw [move, release]
      split
      · rfl
      · exact (Apart.wake _ _).inbox
  | skip ms | elapse ms => exact (Apart.wakeAll _ _).inbox

/-- The text that is taken out of the inbox with a move, to be delivered. -/
def takesOut? (c : Client) : Move → Option String
  | .advance i => c.arrival? (.advance i)
  | _ => none

/-- What is taken out with a move stood first, and what is brought with it stands last. -/
theorem frames_move (c : Client) (m : Move) :
    (c.takesOut? m).toList ++ (c.move m).inbox.frames =
      c.inbox.frames ++ m.brought?.toList := by
  rw [inbox_move]
  cases m with
  | advance i =>
      rw [takesOut?, arrival?, inboxAfter]
      split
      · cases c.inbox.frames <;> simp [Move.brought?]
      · simp [Move.brought?]
  | arrive text => rfl
  | _ => simp [takesOut?, inboxAfter, Move.brought?]

/-- What has been taken out and what stands in the inbox is what stood there and what has come, in
its order. -/
theorem frames_run (c : Client) (moves : List Move) :
    c.shown takesOut? moves ++ (c.run moves).inbox.frames =
      c.inbox.frames ++ moves.filterMap Move.brought? := by
  induction moves generalizing c with
  | nil => simp [shown]
  | cons m rest ih =>
      have hmove := c.frames_move m
      rw [shown, run_cons, List.append_assoc, ih (c.move m), ← List.append_assoc, hmove,
        List.append_assoc, List.filterMap_cons]
      cases m.brought? <;> rfl

/-- The inbox stays open until the last sender goes. -/
theorem isOpen_move (c : Client) (m : Move) :
    (c.move m).inbox.isOpen = (c.inbox.isOpen && m != .closeInbox) := by
  rw [inbox_move]
  cases m with
  | closeInbox => simp [inboxAfter]
  | advance i =>
      rw [inboxAfter]
      split <;> simp
  | _ => simp [inboxAfter]

end Client

end GatewayClient
