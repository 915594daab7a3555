/-
What a client does when something comes in.  A frame that is no reply makes it do the deeds of one
list, one after the other; what is true of every deed is then true of taking in such a frame.  A
step of a handler's run is told apart here too.
-/
import GatewayClient.Proofs.Client.Work

namespace GatewayClient

/-- A thing that a client does for what comes in.  An errand is a change that is begun for the
listener of a name. -/
inductive Deed where
  | note (n : Note)
  | change (change : Change)
  | errand (change : Change) (target : String)
  | answer (call : ProviderCall) (handler : Option Handler)

namespace Deed

/-- What a deed notes. -/
def notes : Deed → List Note
  | note n => [n]
  | _ => []

/-- The job that a deed starts. -/
def job? : Deed → Option Job
  | note _ => none
  | change c | errand c _ => some (.change c .fresh)
  | answer call handler => some (.answer call.id call.method (.fresh handler call.params))

end Deed

/-- The deeds of a listener that is run on a notice. -/
def Listener.deeds (listener : Listener) (attached : Dictionary String UInt64) (event : String)
    (value : Json) : List Deed :=
  match listener.payload.normalize value with
  | none => []
  | some value =>
    .note ⟨listener.name, value⟩ ::
      match listener.reaction with
      | .nothing | .breakDown => []
      | .detach target =>
        (attached.get? target).toList.map fun id => .errand (.unsubscribe event id) target
      | .enlist event name => [.change (.subscribe event { name })]

namespace Client

variable {c : Client} {text : String} {R : Client → Client → Prop}

/-- The client after a deed. -/
def perform (c : Client) : Deed → Client
  | .note n => { c with notes := c.notes ++ [n] }
  | .change change => (c.start (.change change .fresh)).1
  | .errand change target =>
    let (client, job) := c.start (.change change .fresh)
    { client with errands := client.errands.put job target }
  | .answer call handler =>
    (c.start (.answer call.id call.method (.fresh handler call.params))).1

/-- The client after some deeds. -/
def performAll (c : Client) (deeds : List Deed) : Client :=
  deeds.foldl perform c

@[simp] theorem performAll_cons (c : Client) (d : Deed) (rest : List Deed) :
    c.performAll (d :: rest) = (c.perform d).performAll rest := rfl

theorem performAll_append (c : Client) (first second : List Deed) :
    c.performAll (first ++ second) = (c.performAll first).performAll second :=
  List.foldl_append

/-- A relation that holds over each deed holds over a list of deeds. -/
theorem performAll_induction (hrefl : ∀ c, R c c)
    (htrans : ∀ {c c₁ c'}, R c c₁ → R c₁ c' → R c c') (hdeed : ∀ c d, R c (c.perform d))
    (c : Client) (deeds : List Deed) : R c (c.performAll deeds) := by
  induction deeds generalizing c with
  | nil => exact hrefl c
  | cons d rest ih => exact htrans (hdeed c d) (ih _)

/-- A deed notes something, or starts a job that has not begun. -/
theorem perform_eq (c : Client) (d : Deed) :
    (d.job? = none ∧ c.perform d = { c with notes := c.notes ++ d.notes }) ∨
      ∃ job errands, d.job? = some job ∧ d.notes = [] ∧
        c.perform d = { (c.start job).1 with errands := errands } := by
  cases d with
  | note n => exact .inl ⟨rfl, rfl⟩
  | errand change target => exact .inr ⟨_, _, rfl, rfl, rfl⟩
  | change change | answer call handler => exact .inr ⟨_, (c.start _).1.errands, rfl, rfl, rfl⟩

theorem notes_perform (c : Client) (d : Deed) : (c.perform d).notes = c.notes ++ d.notes := by
  rcases c.perform_eq d with ⟨-, heq⟩ | ⟨job, errands, -, hnotes, heq⟩
  · rw [heq]
  · obtain ⟨ready, hstart⟩ := c.start_eq job
    rw [heq, hstart, hnotes, List.append_nil]

theorem notes_performAll (c : Client) (deeds : List Deed) :
    (c.performAll deeds).notes = c.notes ++ deeds.flatMap Deed.notes := by
  induction deeds generalizing c with
  | nil => exact (List.append_nil _).symm
  | cons d rest ih =>
      rw [performAll_cons, ih, notes_perform, List.append_assoc, List.flatMap_cons]

theorem attached_perform (c : Client) (d : Deed) : (c.perform d).attached = c.attached := by
  rcases c.perform_eq d with ⟨-, heq⟩ | ⟨job, errands, -, -, heq⟩
  · rw [heq]
  · obtain ⟨ready, hstart⟩ := c.start_eq job
    rw [heq, hstart]

theorem attached_performAll (c : Client) (deeds : List Deed) :
    (c.performAll deeds).attached = c.attached :=
  performAll_induction (R := fun c c' => c'.attached = c.attached) (fun _ => rfl)
    (fun h h' => h'.trans h) attached_perform c deeds

theorem runListener_eq (c : Client) (event : String) (value : Json) (listener : Listener) :
    (c.runListener event value listener).1 =
      c.performAll (listener.deeds c.attached event value) := by
  rw [runListener, Listener.deeds]
  cases listener.payload.normalize value with
  | none => rfl
  | some value =>
      cases listener.reaction with
      | nothing | breakDown | enlist => rfl
      | detach target =>
          dsimp only
          rw [startErrand, show (c.note listener.name value).attached = c.attached from rfl]
          cases c.attached.get? target <;> rfl

/-- The deeds of those who are run on a notice one after the other. -/
def noticeDeeds (c : Client) (event : String) (value : Json)
    (listeners : List (UInt64 × Listener)) : List Deed :=
  listeners.flatMap fun entry => entry.2.deeds c.attached event value

theorem runListeners_eq_performAll (c : Client) (event : String) (value : Json)
    (listeners : List (UInt64 × Listener)) :
    (c.runListeners event value listeners).1 =
      c.performAll (c.noticeDeeds event value listeners) := by
  induction listeners generalizing c with
  | nil => rfl
  | cons entry rest ih =>
      rw [runListeners]
      dsimp only
      rw [ih, runListener_eq, noticeDeeds, attached_performAll, noticeDeeds, List.flatMap_cons,
        performAll_append]

/-- The deeds of taking in a text, if it is no reply. -/
def deeds (c : Client) (text : String) (answering : Bool) : List Deed :=
  match Inbound.parse text with
  | .ok (.event notice) =>
    c.noticeDeeds notice.event notice.value (c.listenersOf notice.event)
  | .ok (.providerCall call) =>
    if answering then [.answer call (c.providers.get? call.method)] else []
  | _ => []

/-- A text that comes in and is no reply has its deeds done. -/
theorem deliver_eq (hreply : ∀ r, Inbound.parse text ≠ .ok (.response r)) (answering : Bool) :
    (c.deliver text answering).1 = c.performAll (c.deeds text answering) := by
  rw [deliver, deeds]
  cases hparse : Inbound.parse text with
  | error fault => rfl
  | ok frame =>
      cases frame with
      | response r => exact absurd hparse (hreply r)
      | event notice => exact c.runListeners_eq_performAll notice.event notice.value _
      | providerCall call => cases answering <;> rfl

/-- The table after a reply has been given to it. -/
def tableAfter (c : Client) (r : Response) : Table :=
  match r.callId? with
  | some id => (c.table.resolve id r.outcome).1
  | none => c.table

/-- Giving a reply to the table changes the table and who is ready. -/
theorem deliverResponse_eq (c : Client) (r : Response) :
    ∃ ready, (c.deliverResponse r).1 = { c with table := c.tableAfter r, ready := ready } := by
  rw [deliverResponse, tableAfter]
  cases r.callId? with
  | none => exact ⟨_, rfl⟩
  | some id => exact wakeOption_eq { c with table := (c.table.resolve id r.outcome).1 } _

/-- When a handler's run ends, its answer has the outcome if it is still there. -/
theorem finishHandling_cases (c : Client) (i answer : JobId) (outcome : Outcome) :
    c.finishHandling i answer outcome = c.removeJob i ∨
      ∃ id method, (c.removeJob i).jobs.get? answer = some (.answer id method .running) ∧
        c.finishHandling i answer outcome =
          ((c.removeJob i).setJob answer (.answer id method (.ready outcome))).wake answer := by
  rw [finishHandling]
  split
  · next hget => exact .inr ⟨_, _, hget, rfl⟩
  · exact .inl rfl

/-- A step of a handler's run ends it, or makes notes and comes to wait for a release and takes it
to a further stage. -/
theorem stepHandle_cases {c' : Client} {i answer : JobId} {handler : Handler} {method : String}
    {stage : HandlingStage} (hstep : c.stepHandle? i answer handler method stage = some c') :
    (∃ outcome, c' = c.finishHandling i answer outcome) ∨
      ∃ signals notes stage', c' =
        { c with signals := signals, notes := notes }.setJob i
          (.handle answer handler method stage') := by
  cases handler with
  | mute =>
      cases hstep
      exact .inl ⟨_, rfl⟩
  | scripted name label request reply script =>
      cases stage with
      | fresh params =>
          rw [stepHandle?] at hstep
          cases hinvocation : Handler.invocation? label request method params with
          | none =>
              rw [hinvocation] at hstep
              cases hstep
              exact .inl ⟨_, rfl⟩
          | some invocation =>
              rw [hinvocation] at hstep
              cases hwait : script.wait with
              | none =>
                  simp only [hwait] at hstep
                  cases hstep
                  exact .inr ⟨_, _, _, rfl⟩
              | some signal =>
                  simp only [hwait] at hstep
                  cases hstep
                  rw [awaitSignal]
                  split <;> exact .inr ⟨_, _, _, rfl⟩
      | waiting signal invocation =>
          rw [stepHandle?] at hstep
          split at hstep
          · cases hstep
          · cases hstep
            exact .inr ⟨_, _, _, rfl⟩
      | ending invocation =>
          cases hstep
          exact .inl ⟨_, rfl⟩

end Client

end GatewayClient
