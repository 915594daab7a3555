/-
How a frame is treated.  What a client makes of a frame that comes in depends on the calls that are
waited for, on who listens and provides, and on the names of listeners; and a frame changes nothing
of that but by ending a call that is waited for.
-/
import GatewayClient.Proofs.Client.AnyOrder
import GatewayClient.Proofs.Client.FanOut
import GatewayClient.Proofs.Client.Inbox

namespace GatewayClient

namespace Table

variable {t : Table} {id other : UInt64} {slot : Nat} {outcome : Outcome}

/-- The slot of the call that waits for the reply of an id, if its caller listens. -/
def awaited? (t : Table) (id : UInt64) : Option Nat :=
  (t.pending.get? id).bind fun call => if t.isListening call.slot then some call.slot else none

/-- What a caller that listens to a slot finds there. -/
def found? (t : Table) (slot : Nat) : Option SlotContent :=
  if t.isListening slot then some (t.content slot) else none

theorem isSome_awaited? (t : Table) (id : UInt64) : (t.awaited? id).isSome = t.hears id := by
  rw [awaited?, hears]
  cases t.pending.get? id with
  | none => rfl
  | some call =>
      rw [Option.bind_some, Option.any_some]
      cases t.isListening call.slot <;> rfl

theorem isListening_resolve (t : Table) (id : UInt64) (outcome : Outcome) (slot : Nat) :
    (t.resolve id outcome).1.isListening slot = t.isListening slot := by
  rw [resolve_eq, isListening_eq, isListening_eq]
  exact listening_conclude t id (Slot.listening_fill · outcome) slot

/-- A reply ends the waiting for its id, and no other. -/
theorem awaited?_resolve (t : Table) (id : UInt64) (outcome : Outcome) (other : UInt64) :
    (t.resolve id outcome).1.awaited? other = if id = other then none else t.awaited? other := by
  rw [awaited?, get?_resolve]
  split
  · rfl
  · simp only [isListening_resolve, awaited?]

theorem awaited?_eq_some : t.awaited? id = some slot ↔
    ∃ call, t.pending.get? id = some call ∧ call.slot = slot ∧ t.isListening slot = true := by
  rw [awaited?, Option.bind_eq_some_iff]
  refine exists_congr fun call => and_congr_right fun _ => ?_
  constructor
  · intro h
    split at h
    · next hlistening =>
        cases h
        exact ⟨rfl, hlistening⟩
    · cases h
  · rintro ⟨rfl, hlistening⟩
    exact if_pos hlistening

/-- A reply comes to the caller who waits for it, and to no other. -/
theorem found?_resolve (t : Table) (id : UInt64) (outcome : Outcome) (slot : Nat) :
    (t.resolve id outcome).1.found? slot =
      if t.awaited? id = some slot then some (.filled outcome) else t.found? slot := by
  rw [found?, isListening_resolve, found?, content_eq, content_eq, slotAt_resolve]
  by_cases hawaited : t.awaited? id = some slot
  · obtain ⟨call, hget, rfl, hlistening⟩ := awaited?_eq_some.mp hawaited
    have hmade : call.slot < t.slots.length := by
      rw [isListening_eq] at hlistening
      by_contra hslot
      rw [slotAt_of_not_made t (Nat.le_of_not_lt hslot)] at hlistening
      cases hlistening
    rw [if_pos hlistening, if_pos hawaited, slotAt_conclude_self hget hmade, Slot.content_fill,
      ← isListening_eq, if_pos hlistening]
  · rw [if_neg hawaited]
    by_cases hlistening : t.isListening slot = true
    · rw [slotAt_conclude_of_ne]
      exact fun call hget hslot => hawaited (awaited?_eq_some.mpr ⟨call, hget, hslot, hlistening⟩)
    · rw [if_neg hlistening, if_neg hlistening]

end Table

/-- What the treatment of a frame depends on: which slot the reply of an id goes to, what the
callers of slots would find in them, and who listens and provides. -/
structure Outlook where
  awaited : UInt64 → Option Nat
  found : Nat → Option SlotContent
  events : Dictionary String (List (UInt64 × Listener))
  attached : Dictionary String UInt64
  providers : Dictionary String Handler

/-- How a frame is treated: what is told of it, what the callers of slots find in them afterwards,
what those note who are run on it, and the jobs that are started for it. -/
structure Treatment where
  told : Delivery
  found : Nat → Option SlotContent
  noted : List Note
  started : List Job

/-- The job that a listener starts when it is run on a notice of an event, by the names under which
listeners were attached. -/
def Listener.starts (attached : Dictionary String UInt64) (event : String) (value : Json)
    (listener : Listener) : List Job :=
  match listener.payload.normalize value, listener.reaction with
  | some _, .detach target =>
    (attached.get? target).toList.map fun id => .change (.unsubscribe event id) .fresh
  | some _, .enlist event name => [.change (.subscribe event { name }) .fresh]
  | _, _ => []

namespace Outlook

variable {o : Outlook} {text : String}

/-- Whether a reply is for a call that is waited for. -/
def expects (o : Outlook) (r : Response) : Bool :=
  r.callId?.any fun id => (o.awaited id).isSome

/-- The outlook after a frame: a reply ends the waiting for its id, and comes to who waited. -/
def after (o : Outlook) (text : String) : Outlook :=
  match (Client.replyOf? text).bind fun r => r.callId?.map fun id => (id, r.outcome) with
  | none => o
  | some (id, outcome) =>
    { o with
      awaited := fun other => if id = other then none else o.awaited other
      found := fun slot =>
        if o.awaited id = some slot then some (.filled outcome) else o.found slot }

/-- How a frame is treated in view of an outlook. -/
def treatment (o : Outlook) (text : String) : Treatment :=
  let found := (o.after text).found
  match Inbound.parse text with
  | .error _ => ⟨.malformed, found, [], []⟩
  | .ok (.response r) => ⟨.response (o.expects r), found, [], []⟩
  | .ok (.event notice) =>
    let entries := (o.events.get? notice.event).getD []
    ⟨.event (entries.countP fun entry => entry.2.completes notice.value), found,
      entries.flatMap fun entry => entry.2.heard notice.value,
      entries.flatMap fun entry => entry.2.starts o.attached notice.event notice.value⟩
  | .ok (.providerCall call) =>
    ⟨.providerCall, found, [],
      [.answer call.id call.method (.fresh (o.providers.get? call.method) call.params)]⟩

/-- A frame that is no reply to a call that is waited for changes nothing. -/
theorem after_of_unmatched
    (hunmatched : ∀ r, Client.replyOf? text = some r → o.expects r = false) :
    o.after text = o := by
  rw [after]
  split
  · rfl
  · next id outcome heq =>
      obtain ⟨r, hreply, hr⟩ := Option.bind_eq_some_iff.mp heq
      obtain ⟨id', hid, hpair⟩ := Option.map_eq_some_iff.mp hr
      cases hpair
      have hnone : o.awaited id = none := by
        have h := hunmatched r hreply
        rwa [expects, hid, Option.any_some, Option.isSome_eq_false_iff,
          Option.isNone_iff_eq_none] at h
      have hawaited : (fun other => if id = other then none else o.awaited other) = o.awaited := by
        funext other
        split
        · next hother => rw [← hother, hnone]
        · rfl
      simp only [hawaited, hnone, reduceCtorEq, ↓reduceIte]

end Outlook

namespace Client

variable {c c' : Client} {text : String} {event : String} {value : Json}

/-- What the treatment of a frame depends on, as it is for a client. -/
def outlook (c : Client) : Outlook where
  awaited := c.table.awaited?
  found := c.table.found?
  events := c.events
  attached := c.attached
  providers := c.providers

/-- The jobs of a client in the order in which they were started. -/
def jobList (c : Client) : List Job :=
  c.jobs.map Prod.snd

/-- How a client treats a frame. -/
def treatment (c : Client) (text : String) : Treatment :=
  let (client, told) := c.deliver text true
  ⟨told, client.table.found?, client.notes.drop c.notes.length,
    client.jobList.drop c.jobList.length⟩

/-- How a client treats frames that come in one after the other. -/
def treatments (c : Client) : List String → List Treatment
  | [] => []
  | text :: rest => c.treatment text :: treatments (c.deliver text true).1 rest

theorem jobList_start (hnumbered : c.Numbered) (job : Job) :
    (c.start job).1.jobList = c.jobList ++ [job] := by
  rw [jobList, jobs_start,
    Dictionary.put_of_get?_eq_none (hnumbered.get?_eq_none (Nat.le_refl _)), List.map_append]
  rfl

theorem jobList_perform (hnumbered : c.Numbered) (d : Deed) :
    (c.perform d).jobList = c.jobList ++ d.job?.toList := by
  rcases c.perform_eq d with ⟨hjob, heq⟩ | ⟨job, errands, hjob, -, heq⟩
  · rw [heq, hjob]
    exact (List.append_nil _).symm
  · rw [heq, hjob]
    exact jobList_start hnumbered job

theorem jobList_performAll (hnumbered : c.Numbered) (deeds : List Deed) :
    (c.performAll deeds).jobList = c.jobList ++ deeds.filterMap Deed.job? := by
  induction deeds generalizing c with
  | nil => exact (List.append_nil _).symm
  | cons d rest ih =>
      rw [performAll_cons, ih ((Quiet.perform c d).numbered hnumbered), jobList_perform hnumbered,
        List.append_assoc, List.filterMap_cons]
      cases d.job? <;> rfl

theorem filterMap_deeds (listener : Listener)
    (attached : Dictionary String UInt64) (event : String) (value : Json) :
    (listener.deeds attached event value).filterMap Deed.job? =
      listener.starts attached event value := by
  rw [Listener.deeds, Listener.starts]
  cases listener.payload.normalize value with
  | none => rfl
  | some value =>
      cases listener.reaction with
      | nothing | breakDown | enlist => rfl
      | detach target =>
          dsimp only
          cases attached.get? target <;> rfl

theorem jobList_runListeners (hnumbered : c.Numbered) (event : String) (value : Json)
    (entries : List (UInt64 × Listener)) :
    (c.runListeners event value entries).1.jobList =
      c.jobList ++ entries.flatMap fun entry => entry.2.starts c.attached event value := by
  rw [runListeners_eq_performAll, jobList_performAll hnumbered, noticeDeeds,
    List.filterMap_flatMap]
  simp only [filterMap_deeds]

/-- What is told of a reply, by the outlook. -/
theorem expects_outlook (c : Client) (r : Response) :
    c.outlook.expects r = (c.deliverResponse r).2 := by
  rw [Outlook.expects]
  cases hid : r.callId? with
  | none => rw [deliverResponse_of_none hid, Option.any_none]
  | some id =>
      rw [deliverResponse_of_some hid, resolve_snd, Option.any_some]
      exact c.table.isSome_awaited? id

theorem outlook_of_quiet (h : Quiet c c') (happart : Apart c c') : c'.outlook = c.outlook := by
  rw [outlook, outlook, h.table, h.events, happart.attached, h.providers]

theorem outlook_deliverResponse {r : Response} (hreply : replyOf? text = some r) :
    (c.deliverResponse r).1.outlook = c.outlook.after text := by
  rw [Outlook.after, hreply, Option.bind_some]
  cases hid : r.callId? with
  | none =>
      rw [deliverResponse_of_none hid]
      rfl
  | some id =>
      obtain ⟨ready, heq⟩ := c.resolve_woken id r.outcome
      rw [deliverResponse_of_some hid, heq, outlook, funext (c.table.awaited?_resolve id r.outcome),
        funext (c.table.found?_resolve id r.outcome)]
      rfl

/-- What a frame does to the outlook. -/
theorem outlook_deliver (c : Client) (text : String) (answering : Bool) :
    (c.deliver text answering).1.outlook = c.outlook.after text := by
  cases hreply : replyOf? text with
  | none =>
      rcases c.deliver_cases text answering with ⟨r, -, hr, -⟩ | ⟨-, heq⟩
      · rw [hreply] at hr
        cases hr
      · rw [heq, outlook_of_quiet (.performAll c _) (.performAll c _), Outlook.after, hreply]
        rfl
  | some r =>
      rw [deliver_of_response answering (parse_of_replyOf? hreply)]
      exact outlook_deliverResponse hreply

theorem treatment_of_deliver {told : Delivery} {noted : List Note} {started : List Job}
    (hdeliver : c.deliver text true = (c', told)) (hnotes : c'.notes = c.notes ++ noted)
    (hjobs : c'.jobList = c.jobList ++ started) :
    c.treatment text = ⟨told, (c.outlook.after text).found, noted, started⟩ := by
  have hfound : c'.table.found? = (c.outlook.after text).found := by
    rw [← c.outlook_deliver text true, hdeliver]
    rfl
  rw [treatment, hdeliver]
  dsimp only
  rw [hfound, hnotes, hjobs, List.drop_left, List.drop_left]

/-- How a frame is treated depends on the outlook alone. -/
theorem treatment_eq (hnumbered : c.Numbered) (text : String) :
    c.treatment text = c.outlook.treatment text := by
  have hnothing : ∀ {α : Type} (entries : List α), entries = entries ++ [] :=
    fun entries => (List.append_nil entries).symm
  rw [Outlook.treatment]
  cases hparse : Inbound.parse text with
  | error fault =>
      exact treatment_of_deliver (by rw [deliver, hparse]) (hnothing _) (hnothing _)
  | ok frame =>
      cases frame with
      | response r =>
          have hdeliver := deliver_of_response (c := c) true hparse
          obtain ⟨ready, heq⟩ := c.deliverResponse_eq r
          rw [heq] at hdeliver
          dsimp only
          rw [expects_outlook]
          exact treatment_of_deliver hdeliver (hnothing _) (hnothing _)
      | event notice =>
          have hdeliver : c.deliver text true =
              ((c.dispatch notice.event notice.value).1,
                .event (c.dispatch notice.event notice.value).2) := by
            rw [deliver, hparse]
            rfl
          have hnotes := notes_runListeners c notice.event notice.value (c.listenersOf notice.event)
          have hjobs := jobList_runListeners hnumbered notice.event notice.value
            (c.listenersOf notice.event)
          rw [dispatch] at hdeliver
          rw [runListeners_eq] at hdeliver hjobs
          exact treatment_of_deliver hdeliver hnotes hjobs
      | providerCall call =>
          have hdeliver : c.deliver text true = (c.startAnswer call, .providerCall) := by
            rw [deliver, hparse]
            rfl
          have hnotes : (c.startAnswer call).notes = c.notes ++ [] :=
            (notes_start c _).trans (hnothing _)
          exact treatment_of_deliver hdeliver hnotes (jobList_start hnumbered _)

/-- Clients with one outlook treat frames in the same way. -/
theorem treatments_congr (hnumbered : c.Numbered) (hnumbered' : c'.Numbered)
    (houtlook : c'.outlook = c.outlook) (texts : List String) :
    c'.treatments texts = c.treatments texts := by
  induction texts generalizing c c' with
  | nil => rfl
  | cons text rest ih =>
      have hafter : (c'.deliver text true).1.outlook = (c.deliver text true).1.outlook := by
        rw [outlook_deliver, outlook_deliver, houtlook]
      have hrest := ih (hnumbered.move (.deliver text true)) (hnumbered'.move (.deliver text true))
        hafter
      rw [treatments, treatments, treatment_eq hnumbered, treatment_eq hnumbered', houtlook]
      exact congrArg (_ :: ·) hrest

end Client

end GatewayClient
