/-
Sessions make runs.  The schedule advances jobs and lets time pass, the platform takes in and sends
frames, and every action but the two on the table itself is a move and what the schedule makes of
it.  So what holds after every run of a new client holds of the client of every session.
-/
import GatewayClient.Proofs.Client.Move
import GatewayClient.Session.Action

namespace GatewayClient

namespace Client

/-- A client comes to be another by moves. -/
def ComesToBe (c c' : Client) : Prop :=
  ∃ moves, c' = c.run moves

namespace ComesToBe

variable {c c' c'' : Client}

theorem refl (c : Client) : c.ComesToBe c :=
  ⟨[], rfl⟩

theorem trans (h : c.ComesToBe c') (h' : c'.ComesToBe c'') : c.ComesToBe c'' := by
  obtain ⟨first, rfl⟩ := h
  obtain ⟨second, rfl⟩ := h'
  exact ⟨first ++ second, (run_append ..).symm⟩

theorem move (c : Client) (m : Move) : c.ComesToBe (c.move m) :=
  ⟨[m], rfl⟩

theorem turns (c : Client) (n : Nat) : c.ComesToBe (c.turns n) := by
  induction n generalizing c with
  | zero => exact .refl c
  | succ n ih =>
      rw [Client.turns, turn?]
      cases c.ready with
      | nil => exact .refl c
      | cons job rest => exact (move c (.advance job)).trans (ih _)

theorem settle (c : Client) : c.ComesToBe c.settle :=
  turns c c.workload

theorem advanceTo (c : Client) (pass : Nat → Move) (target n : Nat) :
    c.ComesToBe (c.advanceTo pass target n) := by
  induction n generalizing c with
  | zero => exact .refl c
  | succ n ih =>
      rw [Client.advanceTo]
      cases c.nextDeadline? target with
      | none => exact move c _
      | some deadline => exact (move c _).trans ((settle _).trans (ih _))

theorem takeIn (c : Client) (arrivals : List Arrival) : c.ComesToBe (c.takeIn arrivals).1 := by
  induction arrivals generalizing c with
  | nil => exact .refl c
  | cons arrival rest ih =>
      cases arrival with
      | ok text => exact (move c (.deliver text true)).trans (ih _)
      | error failure =>
          cases failure with
          | closed => exact .refl c
          | sendFailed | receiveFailed => exact ih c

end ComesToBe

end Client

namespace Session

open Client

theorem comesToBe_drain (c : Client) (n : Nat) : c.ComesToBe (drain c n).1 := by
  induction n generalizing c with
  | zero => exact .refl c
  | succ n ih =>
      have hmove : c.ComesToBe c.takeFrame.1 := .move c .takeFrame
      rw [drain]
      split
      · next client frame htaken =>
          rw [htaken] at hmove
          exact hmove.trans (ih client)
      · next client htaken =>
          rw [htaken] at hmove
          exact hmove

theorem comesToBe_answerFrames (c : Client) (members : List (String × Json)) (frames : List Json) :
    c.ComesToBe (answerFrames c members frames) := by
  rw [answerFrames]
  induction frames.filter isRequest generalizing c with
  | nil => exact .refl c
  | cons frame rest ih => exact (ComesToBe.move c (.deliver _ true)).trans (ih _)

theorem comesToBe_answerNews (s : Session) : s.client.ComesToBe s.answerNews.client := by
  rw [answerNews]
  cases s.answer with
  | none => exact .refl _
  | some members => exact (comesToBe_answerFrames s.client members _).trans (.settle _)

theorem comesToBe_answerAll (s : Session) (n : Nat) :
    s.client.ComesToBe (s.answerAll n).client := by
  induction n generalizing s with
  | zero => exact .refl _
  | succ n ih =>
      rw [answerAll]
      split
      · exact (comesToBe_answerNews s).trans (ih _)
      · exact .refl _

theorem comesToBe_settle (s : Session) : s.client.ComesToBe s.settle.client :=
  (ComesToBe.settle s.client).trans (comesToBe_answerAll _ _)

theorem client_watch (s : Session) (event : String) : (s.watch event).client = s.client := by
  rw [watch]
  split <;> rfl

theorem client_watchAll (s : Session) (events : List String) :
    (events.foldl watch s).client = s.client := by
  induction events generalizing s with
  | nil => rfl
  | cons event rest ih => exact (ih _).trans (client_watch s event)

/-- Whether an action is on the table itself, which no job takes part in. -/
def Action.byHand : Action → Bool
  | .register _ _ | .receive _ => true
  | _ => false

theorem comesToBe_startTask (s : Session) (tag : String) (activity : Activity) :
    s.client.ComesToBe (s.startTask tag activity).client :=
  .move s.client (.begin activity)

theorem comesToBe_startWith (s : Session) (tag listener : String) (activity : UInt64 → Activity) :
    s.client.ComesToBe (s.startWith tag listener activity).1.client := by
  rw [startWith]
  split
  · exact comesToBe_startTask ..
  · exact .refl _

theorem comesToBe_startIf (s : Session) (tag : String) (activity : Option Activity) :
    s.client.ComesToBe (s.startIf tag activity).1.client := by
  cases activity with
  | none => exact .refl _
  | some activity => exact comesToBe_startTask ..

/-- An action is a move, or several, or none. -/
theorem comesToBe_act (s : Session) {action : Action} (haction : action.byHand = false) :
    s.client.ComesToBe (s.act action).1.client := by
  cases action with
  | register | receive => cases haction
  | start | serve | provideCustom | subscribeCustom => exact comesToBe_startTask ..
  | detach => exact comesToBe_startWith ..
  | getProperty tag name =>
      rw [act]
      cases Catalog.property? name with
      | none => exact .refl _
      | some p => exact comesToBe_startTask ..
  | setProperty tag name value =>
      rw [act]
      cases Catalog.property? name with
      | none => exact .refl _
      | some p =>
          dsimp only
          split
          · exact comesToBe_startIf ..
          · exact .refl _
  | callMethod tag name params =>
      rw [act]
      cases Catalog.method? name with
      | none => exact .refl _
      | some m => exact comesToBe_startIf ..
  | onChange tag name listener =>
      rw [act]
      split
      · exact comesToBe_startTask ..
      · exact comesToBe_startTask ..
      · exact .refl _
  | offChange tag name listener =>
      rw [act]
      split
      · exact comesToBe_startWith ..
      · exact comesToBe_startWith ..
      · exact .refl _
  | describe name =>
      rw [act]
      split <;> exact .refl _
  | settings | answerBy => exact .refl _
  | drop tag =>
      rw [act]
      split
      · exact .refl _
      · exact .move s.client (.drop _)
  | dispatch event value => exact .move s.client (.dispatch event value)
  | deliver text answering => exact .move s.client (.deliver text answering)
  | takeIn arrivals => exact .takeIn s.client arrivals
  | setLink state => exact .move s.client (.setLink state)
  | release name => exact .move s.client (.release name)
  | advance ms => exact .advanceTo s.client _ _ _
  | startSweeper => exact .move s.client .startSweeper
  | drain limit => exact comesToBe_drain _ _
  | push text =>
      rw [act]
      split
      · exact .move s.client (.arrive text)
      · exact .refl _
  | closeInbox => exact .move s.client .closeInbox
  | closeChannel => exact .move s.client .closeChannel

/-- So is an action with all that comes of it. -/
theorem comesToBe_perform (s : Session) (events : List String) {action : Action}
    (haction : action.byHand = false) :
    s.client.ComesToBe (s.perform events action).1.client := by
  have hact := comesToBe_act ((events ++ action.watches).foldl watch s) haction
  rw [client_watchAll] at hact
  exact hact.trans (comesToBe_settle _)

theorem comesToBe_pass (s : Session) (events : List String) :
    s.client.ComesToBe (s.pass events).1.client := by
  have hsettle := comesToBe_settle (events.foldl watch s)
  rwa [client_watchAll] at hsettle

/-- The client with which a session starts. -/
theorem comesToBe_start (settings : Settings) (overChannel : Bool) :
    ∃ link, (ofSettings settings link).ComesToBe (start settings overChannel).client := by
  cases overChannel with
  | false => exact ⟨.direct .up, .refl _⟩
  | true =>
      refine ⟨.channel { capacity := settings.outboundBuffer.toNat }, ?_⟩
      exact (ComesToBe.move _ .startReceiver).trans (.settle _)

/-- A session after some steps, each an action or none, with the events to report from then on. -/
def follow (s : Session) (steps : List (List String × Option Action)) : Session :=
  steps.foldl
    (fun s step => match step.2 with
      | some action => (s.perform step.1 action).1
      | none => (s.pass step.1).1)
    s

theorem comesToBe_follow (s : Session) {steps : List (List String × Option Action)}
    (hsteps : ∀ events action, (events, some action) ∈ steps → action.byHand = false) :
    s.client.ComesToBe (s.follow steps).client := by
  induction steps generalizing s with
  | nil => exact .refl _
  | cons step rest ih =>
      have hrest := fun events action hmem => hsteps events action (List.mem_cons_of_mem step hmem)
      refine .trans ?_ (ih _ hrest)
      obtain ⟨events, _ | action⟩ := step
      · exact comesToBe_pass s events
      · exact comesToBe_perform s events (hsteps events action (List.mem_cons_self ..))

/-- The client of every session in which the table is left alone is a new client after a run. -/
theorem exists_run_of_session (settings : Settings) (overChannel : Bool)
    {steps : List (List String × Option Action)}
    (hsteps : ∀ events action, (events, some action) ∈ steps → action.byHand = false) :
    ∃ link moves, ((start settings overChannel).follow steps).client =
      (ofSettings settings link).run moves := by
  obtain ⟨link, hstart⟩ := comesToBe_start settings overChannel
  exact ⟨link, hstart.trans (comesToBe_follow _ hsteps)⟩

end Session

end GatewayClient
