/-
Calls of the platform are answered.  The answer to a call goes its way whatever else happens: it is
started with the handler that is provided when the call comes in, its one reply is brought to the
link by the step after the handler has ended, and what the reply says depends on the call and on
that handler alone.
-/
import GatewayClient.Proofs.Client.FanOut
import GatewayClient.Proofs.Client.Sparing

namespace GatewayClient

namespace Json

variable {k key : String}

theorem putMember_before (value v : Json) (rest : List (String × Json)) (hne : k ≠ key)
    (hlt : key < k) :
    putMember key value ((k, v) :: rest) = (key, value) :: (k, v) :: rest := by
  rw [putMember, if_neg hne, if_pos hlt]

theorem putMember_past (value v : Json) (rest : List (String × Json)) (hne : k ≠ key)
    (hge : ¬ key < k) :
    putMember key value ((k, v) :: rest) = (k, v) :: putMember key value rest := by
  rw [putMember, if_neg hne, if_neg hge]

end Json

/-- The signal that a handler waits for before it ends, if it waits for one. -/
def Handler.signal? : Handler → Option String
  | scripted _ _ _ _ script => script.wait
  | mute => none

namespace ProviderCall

/-- What a call comes to with the handler, if any, that there is for it. -/
def outcome (call : ProviderCall) : Option Handler → Outcome
  | none => .error .methodNotFound
  | some .mute => .error .general
  | some (.scripted _ label request reply script) =>
    match Handler.invocation? label request call.method call.params with
    | none => .error .invalidParams
    | some invocation => Handler.conclude reply invocation script.ending

/-- How a call invokes its handler: once, unless the handler cannot read the params. -/
def invocations (call : ProviderCall) : Option Handler → List Note
  | some (.scripted name label request _ _) =>
    (Handler.invocation? label request call.method call.params).toList.map fun invocation =>
      ⟨name, invocation.toJson⟩
  | _ => []

/-- The reply to a call as it goes out: with the call's own id, and with the result, or with the
code and the text of the failure. -/
def reply (call : ProviderCall) : Outcome → Json
  | .ok value =>
    .object [("id", call.id), ("jsonrpc", .string protocolVersion), ("result", value)]
  | .error f =>
    .object [("error", .object [("code", .integer f.code), ("message", .string f.message)]),
      ("id", call.id), ("jsonrpc", .string protocolVersion)]

theorem toJson_ofOutcome (call : ProviderCall) (outcome : Outcome) :
    (Response.ofOutcome call.id outcome).toJson = call.reply outcome := by
  have hcode : ∀ f : Failure, (Int32.ofInt f.code).toInt = f.code := by
    intro f
    cases f <;> decide
  -- The members go out in the order of their keys, and that order is for literal keys to decide.
  cases outcome with
  | ok value =>
      have hsorted : ∀ version : Json, Json.sortMembers
          [("jsonrpc", version), ("id", call.id), ("result", value)] =
            [("id", call.id), ("jsonrpc", version), ("result", value)] := by
        intro version
        simp (disch := decide) only [Json.sortMembers, List.foldl, Json.putMember.eq_1,
          Json.putMember_before, Json.putMember_past]
      simp [reply, Response.ofOutcome, Response.toJson, Response.codec, Codec.convert, Codec.string,
        Codec.value, Codec.optional, Fields.record, Fields.toMembers, Field.required,
        Field.optional, Json.ofMembers, hsorted]
  | error f =>
      have hobject : ∀ code text : Json, Json.sortMembers [("code", code), ("message", text)] =
          [("code", code), ("message", text)] := by
        intro code text
        simp (disch := decide) only [Json.sortMembers, List.foldl, Json.putMember.eq_1,
          Json.putMember_past]
      have hsorted : ∀ version object : Json, Json.sortMembers
          [("jsonrpc", version), ("id", call.id), ("error", object)] =
            [("error", object), ("id", call.id), ("jsonrpc", version)] := by
        intro version object
        simp (disch := decide) only [Json.sortMembers, List.foldl, Json.putMember.eq_1,
          Json.putMember_before]
      simp [reply, Response.ofOutcome, Response.toJson, Response.codec, Codec.convert, Codec.string,
        Codec.value, Codec.optional, Codec.int32, ErrorObject.codec, ErrorObject.ofFailure, hcode,
        Fields.record, Fields.toMembers, Field.required, Field.optional, Field.defaulted,
        Json.ofMembers, hobject, hsorted]

end ProviderCall

/-- The frame of a reply that is ready. -/
def Job.reply? : Job → Option Json
  | answer id _ (.ready outcome) => some (Response.ofOutcome id outcome).toJson
  | _ => none

namespace Client

/-- What the moves of a run give, put together in their order. -/
def gathered {α : Type} (f : Client → Move → List α) (c : Client) : List Move → List α
  | [] => []
  | m :: rest => f c m ++ gathered f (c.move m) rest

/-- The reply that an answer brings to the link with a move. -/
def brings (i : JobId) (c : Client) (m : Move) : List Json :=
  if m = .advance i then ((c.jobs.get? i).bind Job.reply?).toList else []

/-- The frames that the link takes from an answer with a move. -/
def takes (i : JobId) (c : Client) (m : Move) : List Json :=
  if m = .advance i then (c.move m).sent.drop c.sent.length else []

/-- What the handler that runs for an answer notes with a move. -/
def invokes (i : JobId) (c : Client) : Move → List Note
  | .advance k =>
    if c.serves k = some i then (c.move (.advance k)).notes.drop c.notes.length else []
  | _ => []

/-- The link is up if an answer makes a step with a move. -/
def Reaches (i : JobId) (c : Client) (m : Move) : Prop :=
  m = .advance i → c.link.isUp = true

/-- Neither an answer nor the handler that runs for it is given up with a move. -/
def Lets (i : JobId) (c : Client) (m : Move) : Prop :=
  ∀ j, m = .drop j → j ≠ i ∧ c.serves j ≠ some i

variable {c c' : Client} {i k : JobId} {m : Move} {call : ProviderCall} {handler : Handler}
  {handler? : Option Handler} {stage : HandlingStage} {noted : List Note}

/-- How far a handler is with a call, and what it has noted of it. -/
inductive Underway (call : ProviderCall) : Handler → HandlingStage → List Note → Prop
  | fresh (handler : Handler) : Underway call handler (.fresh call.params) []
  | waiting {name signal : String} {label : Option String} {request reply : Payload}
    {script : Script} {invocation : Invocation}
    (hread : Handler.invocation? label request call.method call.params = some invocation)
    (hwait : script.wait = some signal) :
    Underway call (.scripted name label request reply script) (.waiting signal invocation)
      [⟨name, invocation.toJson⟩]
  | ending {name : String} {label : Option String} {request reply : Payload} {script : Script}
    {invocation : Invocation}
    (hread : Handler.invocation? label request call.method call.params = some invocation) :
    Underway call (.scripted name label request reply script) (.ending invocation)
      [⟨name, invocation.toJson⟩]

theorem Underway.prefix_invocations (h : Underway call handler stage noted) :
    noted <+: call.invocations (some handler) := by
  cases h with
  | fresh => exact List.nil_prefix
  | waiting hread | ending hread => simp [ProviderCall.invocations, hread]

/-- What a step of a handler's run comes to: it waits for the signal that its script names, it goes
on, or it ends and the answer has its outcome. -/
inductive HandlerStep (c : Client) (k i : JobId) (call : ProviderCall) (handler : Handler)
    (stage : HandlingStage) (noted : List Note) : Option Client → Prop
  | awaits {signal : String} (hsignal : handler.signal? = some signal)
    (hawaits : c.awaits signal k = true) : HandlerStep c k i call handler stage noted none
  | on {c₁ : Client} {stage' : HandlingStage} {more : List Note} (hjobs : c₁.jobs = c.jobs)
    (hnotes : c₁.notes = c.notes ++ more) (hon : Underway call handler stage' (noted ++ more)) :
    HandlerStep c k i call handler stage noted
      (some (c₁.setJob k (.handle i handler call.method stage')))
  | ends (hnoted : noted = call.invocations (some handler)) :
    HandlerStep c k i call handler stage noted
      (some (c.finishHandling k i (call.outcome (some handler))))

theorem jobs_awaitSignal (c : Client) (name : String) (k : JobId) :
    (c.awaitSignal name k).1.jobs = c.jobs := by
  rw [awaitSignal]
  split <;> rfl

theorem notes_awaitSignal (c : Client) (name : String) (k : JobId) :
    (c.awaitSignal name k).1.notes = c.notes := by
  rw [awaitSignal]
  split <;> rfl

theorem Underway.step (h : Underway call handler stage noted) (c : Client) (k i : JobId) :
    HandlerStep c k i call handler stage noted (c.stepHandle? k i handler call.method stage) := by
  cases h with
  | fresh handler =>
      cases handler with
      | mute => exact .ends rfl
      | scripted name label request reply script =>
          rw [stepHandle?]
          cases hread : Handler.invocation? label request call.method call.params with
          | none =>
              have houtcome : call.outcome (some (.scripted name label request reply script)) =
                  .error .invalidParams := by
                simp [ProviderCall.outcome, hread]
              rw [← houtcome]
              exact .ends (by simp [ProviderCall.invocations, hread])
          | some invocation =>
              cases hwait : script.wait with
              | none => exact .on rfl rfl (.ending hread)
              | some signal =>
                  have hjobs := jobs_awaitSignal (c.note name invocation.toJson) signal k
                  have hnotes : ((c.note name invocation.toJson).awaitSignal signal k).1.notes =
                      c.notes ++ [⟨name, invocation.toJson⟩] := notes_awaitSignal _ signal k
                  refine .on hjobs hnotes ?_
                  dsimp only
                  split
                  · exact .ending hread
                  · exact .waiting hread hwait
  | @waiting name signal label request reply script invocation hread hwait =>
      rw [stepHandle?]
      split
      · next hawaits => exact .awaits hwait hawaits
      · exact .on rfl (List.append_nil _).symm (.ending hread)
  | @ending name label request reply script invocation hread =>
      have houtcome : call.outcome (some (.scripted name label request reply script)) =
          Handler.conclude reply invocation script.ending := by
        simp [ProviderCall.outcome, hread]
      rw [stepHandle?, ← houtcome]
      exact .ends (by simp [ProviderCall.invocations, hread])

/-- An answer whose reply is ready brings it to the link with its next step, and waits if there is
no room for it. -/
theorem offered_of_ready {id : Json} {method : String} {outcome : Outcome}
    (hget : c.jobs.get? i = some (.answer id method (.ready outcome))) :
    ∃ step, c.Offered i (Response.ofOutcome id outcome).toJson (c.move (.advance i)) step ∧
      (c.move (.advance i)).jobs.get? i =
        if step = .waits then some (.answer id method (.crowded outcome)) else none := by
  have hoffered := c.offered i (Response.ofOutcome id outcome).toJson
  have hmove : c.move (.advance i) =
      (c.stepAnswer? i id method (.ready outcome)).getD (c.pause i) := by
    rw [move, stepJob?, hget]
  rw [hmove, stepAnswer?]
  generalize c.offer i (Response.ofOutcome id outcome).toJson = offered at hoffered ⊢
  obtain ⟨client, step⟩ := offered
  refine ⟨step, ?_, ?_⟩
  · cases hoffered with
    | direct hlink hafter hsent => exact .direct hlink hafter hsent
    | room hlink hopen hroom hafter hsent => exact .room hlink hopen hroom hafter hsent
    | full hlink hopen hfull hafter hsent => exact .full hlink hopen hfull hafter hsent
    | down hdown hafter hsent => exact .down hdown hafter hsent
  · cases step with
    | waits => exact Dictionary.get?_put_self _ _ _
    | sent | failed => exact Dictionary.get?_erase_self _ _

/-- An answer that waits for room looks again with each step. -/
theorem offeredAgain_of_crowded {id : Json} {method : String} {outcome : Outcome}
    (hget : c.jobs.get? i = some (.answer id method (.crowded outcome))) :
    ∃ step, c.OfferedAgain i (Response.ofOutcome id outcome).toJson (c.move (.advance i)) step ∧
      (c.move (.advance i)).jobs.get? i =
        if step = .waits then some (.answer id method (.crowded outcome)) else none := by
  have hoffered := c.offeredAgain i (Response.ofOutcome id outcome).toJson
  have hmove : c.move (.advance i) =
      (c.stepAnswer? i id method (.crowded outcome)).getD (c.pause i) := by
    rw [move, stepJob?, hget]
  rw [hmove, stepAnswer?]
  generalize c.offerAgain i (Response.ofOutcome id outcome).toJson = offered at hoffered ⊢
  obtain ⟨client, step⟩ := offered
  refine ⟨step, ?_, ?_⟩
  · cases hoffered with
    | direct hlink hafter hsent => exact .direct hlink hafter hsent
    | room hlink hopen hroom hafter hsent => exact .room hlink hopen hroom hafter hsent
    | full hlink hopen hfull hafter hsent => exact .full hlink hopen hfull rfl rfl
    | down hdown hafter hsent => exact .down hdown hafter hsent
  · cases step with
    | waits => exact hget
    | sent | failed => exact Dictionary.get?_erase_self _ _

/-- How far the answer `i` to a call is, with the replies it has brought, the frames that were taken
from it and what its handler has noted.  `kept` says that neither it nor its handler was given up,
`begun` that it has made a step, and `up` that the link was up whenever it made one. -/
inductive Course (c : Client) (i : JobId) (call : ProviderCall) (handler? : Option Handler)
    (kept begun up : Prop) : List Json → List Json → List Note → Prop
  | fresh (hbegun : ¬ begun)
    (hget : c.jobs.get? i = some (.answer call.id call.method (.fresh handler? call.params)))
    (hnone : ∀ k, c.serves k ≠ some i) : Course c i call handler? kept begun up [] [] []
  | handled {k : JobId} {handler : Handler} {stage : HandlingStage} {noted : List Note}
    (hhandler : handler? = some handler)
    (hget : c.jobs.get? i = some (.answer call.id call.method .running) ∨
      ¬ kept ∧ c.jobs.get? i = none)
    (hhandle : c.jobs.get? k = some (.handle i handler call.method stage))
    (honly : ∀ j, c.serves j = some i → j = k) (hunderway : Underway call handler stage noted) :
    Course c i call handler? kept begun up [] [] noted
  | ready
    (hget : c.jobs.get? i =
      some (.answer call.id call.method (.ready (call.outcome handler?))))
    (hnone : ∀ k, c.serves k ≠ some i) :
    Course c i call handler? kept begun up [] [] (call.invocations handler?)
  | crowded
    (hget : c.jobs.get? i =
      some (.answer call.id call.method (.crowded (call.outcome handler?))))
    (hnone : ∀ k, c.serves k ≠ some i) :
    Course c i call handler? kept begun up [call.reply (call.outcome handler?)] []
      (call.invocations handler?)
  | replied {taken : List Json} (hget : c.jobs.get? i = none) (hnone : ∀ k, c.serves k ≠ some i)
    (htaken : taken <+: [call.reply (call.outcome handler?)])
    (hup : up → taken = [call.reply (call.outcome handler?)]) :
    Course c i call handler? kept begun up [call.reply (call.outcome handler?)] taken
      (call.invocations handler?)
  | lost {brought taken : List Json} {invoked : List Note} (hkept : ¬ kept)
    (hget : c.jobs.get? i = some (.answer call.id call.method .running) ∨ c.jobs.get? i = none)
    (hnone : ∀ k, c.serves k ≠ some i) (hbrought : brought <+: [call.reply (call.outcome handler?)])
    (htaken : taken <+: brought) (hinvoked : invoked <+: call.invocations handler?)
    (hwhole : brought ≠ [] → invoked = call.invocations handler?) :
    Course c i call handler? kept begun up brought taken invoked

namespace Course

variable {kept kept' begun begun' up up' : Prop} {brought taken : List Json} {invoked : List Note}

/-- An answer is as it was if its job is, and the handler that runs for it. -/
theorem frame (h : Course c i call handler? kept begun up brought taken invoked)
    (hkept : kept' → kept) (hbegun : begun' → begun) (hup : up' → up)
    (hget : c'.jobs.get? i = c.jobs.get? i)
    (hhandler : ∀ k, c.serves k = some i → c'.jobs.get? k = c.jobs.get? k)
    (hserves : ∀ k, c'.serves k = some i → c.serves k = some i) :
    Course c' i call handler? kept' begun' up' brought taken invoked := by
  have hnone : (∀ k, c.serves k ≠ some i) → ∀ k, c'.serves k ≠ some i :=
    fun hnone k h => hnone k (hserves k h)
  cases h with
  | fresh hfresh hjob hfree => exact .fresh (mt hbegun hfresh) (hget.trans hjob) (hnone hfree)
  | handled hsome hjob hhandle honly hunderway =>
      refine .handled hsome ?_ ((hhandler _ (serves_of_get? hhandle)).trans hhandle)
        (fun j h => honly j (hserves j h)) hunderway
      rw [hget]
      exact hjob.imp_right (And.imp_left (mt hkept))
  | ready hjob hfree => exact .ready (hget.trans hjob) (hnone hfree)
  | crowded hjob hfree => exact .crowded (hget.trans hjob) (hnone hfree)
  | replied hjob hfree htaken hwhole =>
      exact .replied (hget.trans hjob) (hnone hfree) htaken (hwhole ∘ hup)
  | lost hlost hjob hfree hbrought htaken hinvoked hwhole =>
      refine .lost (mt hkept hlost) ?_ (hnone hfree) hbrought htaken hinvoked hwhole
      rwa [hget]

theorem mono (h : Course c i call handler? kept begun up brought taken invoked)
    (hkept : kept' → kept) (hbegun : begun' → begun) (hup : up' → up) :
    Course c i call handler? kept' begun' up' brought taken invoked :=
  h.frame hkept hbegun hup rfl (fun _ _ => rfl) fun _ h => h

/-- A job that is ready no more changes nothing for an answer. -/
theorem pause (h : Course c i call handler? kept begun up brought taken invoked) (k : JobId) :
    Course (c.pause k) i call handler? kept begun up brought taken invoked :=
  h.frame id id id rfl (fun _ _ => rfl) fun _ h => h

/-- Moves of others leave an answer and its handler as they are. -/
theorem others (h : Course c i call handler? kept begun up brought taken invoked)
    (hnumbered : c.Numbered) (hserved : c.Served) (hi : i < c.nextJob) (hadvance : m ≠ .advance i)
    (hdrop : m ≠ .drop i)
    (hhandler : ∀ k, c.serves k = some i → m ≠ .advance k ∧ m ≠ .drop k) :
    Course (c.move m) i call handler? kept begun up brought taken invoked := by
  have hspares := c.spares_move m
  refine h.frame id id id ?_ ?_ ?_
  · apply hspares.kept i hi
    cases m with
    | advance j =>
        have hj : i ≠ j := fun heq => hadvance (heq ▸ rfl)
        have hserves : c.serves j ≠ some i := fun heq => (hhandler j heq).1 rfl
        simpa [touched, hj] using hserves
    | drop j =>
        have hj : i ≠ j := fun heq => hdrop (heq ▸ rfl)
        simpa [touched] using hj
    | _ => exact List.not_mem_nil
  · intro k hk
    obtain ⟨handler, method, stage, hget⟩ := get?_of_serves hk
    apply hspares.kept k (hnumbered k _ hget)
    cases m with
    | advance j =>
        have hj : k ≠ j := fun heq => (hhandler k hk).1 (heq ▸ rfl)
        have hserves : c.serves j ≠ some k := by
          intro heq
          rw [(hserved j k heq).2] at hk
          cases hk
        simpa [touched, hj] using hserves
    | drop j =>
        have hj : k ≠ j := fun heq => (hhandler k hk).2 (heq ▸ rfl)
        simpa [touched] using hj
    | _ => exact List.not_mem_nil
  · intro k hk
    rcases hspares.serves k i hk with hold | ⟨-, hmem⟩
    · exact hold
    · exact absurd (mem_starting hmem).1 hadvance

theorem unserved_move (hnone : ∀ k, c.serves k ≠ some i) (hstarting : i ∉ c.starting m) :
    ∀ k, (c.move m).serves k ≠ some i := by
  intro k hk
  rcases (c.spares_move m).serves k i hk with hold | ⟨-, hmem⟩
  · exact hnone k hold
  · exact hstarting hmem

/-- Nothing is taken with a step that sends nothing. -/
theorem takes_of_sent (hsent : (c.move (.advance i)).sent = c.sent) :
    takes i c (.advance i) = [] := by
  rw [takes, if_pos rfl, hsent, List.drop_length]

/-- An answer whose reply the link has taken. -/
theorem replied_of_taken (hgone : (c.move (.advance i)).jobs.get? i = none)
    (hsent : (c.move (.advance i)).sent = c.sent ++ [call.reply (call.outcome handler?)])
    (hnone : ∀ k, (c.move (.advance i)).serves k ≠ some i) :
    Course (c.move (.advance i)) i call handler? kept begun up
      [call.reply (call.outcome handler?)] (takes i c (.advance i))
      (call.invocations handler?) := by
  rw [takes, if_pos rfl, hsent, List.drop_left]
  exact .replied hgone hnone (List.prefix_refl _) fun _ => rfl

/-- An answer whose reply the link has refused. -/
theorem replied_of_refused (hgone : (c.move (.advance i)).jobs.get? i = none)
    (hsent : (c.move (.advance i)).sent = c.sent) (hdown : ¬ up)
    (hnone : ∀ k, (c.move (.advance i)).serves k ≠ some i) :
    Course (c.move (.advance i)) i call handler? kept begun up
      [call.reply (call.outcome handler?)] (takes i c (.advance i))
      (call.invocations handler?) := by
  rw [takes_of_sent hsent]
  exact .replied hgone hnone List.nil_prefix fun hup => absurd hup hdown

theorem own_fresh
    (hget : c.jobs.get? i = some (.answer call.id call.method (.fresh handler? call.params)))
    (hnone : ∀ k, c.serves k ≠ some i) (hi : i < c.nextJob) :
    Course (c.move (.advance i)) i call handler? kept begun up (brings i c (.advance i))
      (takes i c (.advance i)) [] := by
  have hbrings : brings i c (.advance i) = [] := by simp [brings, hget, Job.reply?]
  cases handler? with
  | none =>
      have hmove : c.move (.advance i) =
          c.setJob i (.answer call.id call.method (.ready (.error .methodNotFound))) := by
        simp [move, stepJob?, hget, stepAnswer?]
      rw [hbrings, takes_of_sent (by rw [hmove]; rfl)]
      refine .ready ?_ (unserved_move hnone (by simp [starting, hget]))
      rw [hmove]
      exact Dictionary.get?_put_self _ _ _
  | some handler =>
      have hmove : c.move (.advance i) =
          (c.start (.handle i handler call.method (.fresh call.params))).1.setJob i
            (.answer call.id call.method .running) := by
        simp [move, stepJob?, hget, stepAnswer?]
      have hjobs : (c.move (.advance i)).jobs =
          (c.jobs.put c.nextJob (.handle i handler call.method (.fresh call.params))).put i
            (.answer call.id call.method .running) := by
        rw [hmove, setJob, jobs_start]
      have hne : c.nextJob ≠ i := Nat.ne_of_gt hi
      have hsent : (c.move (.advance i)).sent = c.sent := by
        obtain ⟨ready, heq⟩ := c.start_eq (.handle i handler call.method (.fresh call.params))
        rw [hmove, heq]
        rfl
      rw [hbrings, takes_of_sent hsent]
      have hhandle : (c.move (.advance i)).jobs.get? c.nextJob =
          some (.handle i handler call.method (.fresh call.params)) := by
        rw [hjobs, Dictionary.get?_put_of_ne _ _ hne, Dictionary.get?_put_self]
      refine .handled rfl (.inl ?_) hhandle ?_ (.fresh handler)
      · rw [hjobs, Dictionary.get?_put_self]
      · intro j hj
        by_contra hother
        rw [Client.serves, hjobs, Dictionary.get?_put] at hj
        split at hj
        · cases hj
        · rw [Dictionary.get?_put_of_ne _ _ hother] at hj
          exact hnone j hj

theorem own_ready
    (hget : c.jobs.get? i = some (.answer call.id call.method (.ready (call.outcome handler?))))
    (hnone : ∀ k, c.serves k ≠ some i) (hup : up → c.link.isUp = true) :
    Course (c.move (.advance i)) i call handler? kept begun up (brings i c (.advance i))
      (takes i c (.advance i)) (call.invocations handler?) := by
  have hbrings : brings i c (.advance i) = [call.reply (call.outcome handler?)] := by
    simp [brings, hget, Job.reply?, call.toJson_ofOutcome]
  have hnone' := unserved_move hnone (show i ∉ c.starting (.advance i) by simp [starting, hget])
  obtain ⟨step, hoffered, hjob⟩ := offered_of_ready hget
  rw [call.toJson_ofOutcome] at hoffered
  rw [hbrings]
  cases hoffered with
  | direct _ _ hsent | room _ _ _ _ hsent => exact replied_of_taken hjob hsent hnone'
  | full _ _ _ _ hsent =>
      rw [takes_of_sent hsent]
      exact .crowded hjob hnone'
  | down hdown _ hsent =>
      refine replied_of_refused hjob hsent (fun hreached => ?_) hnone'
      cases hdown.symm.trans (hup hreached)

theorem own_crowded
    (hget : c.jobs.get? i = some (.answer call.id call.method (.crowded (call.outcome handler?))))
    (hnone : ∀ k, c.serves k ≠ some i) (hup : up → c.link.isUp = true) :
    brings i c (.advance i) = [] ∧
      Course (c.move (.advance i)) i call handler? kept begun up
        [call.reply (call.outcome handler?)] (takes i c (.advance i))
        (call.invocations handler?) := by
  refine ⟨by simp [brings, hget, Job.reply?], ?_⟩
  have hnone' := unserved_move hnone (show i ∉ c.starting (.advance i) by simp [starting, hget])
  obtain ⟨step, hoffered, hjob⟩ := offeredAgain_of_crowded hget
  rw [call.toJson_ofOutcome] at hoffered
  cases hoffered with
  | direct _ _ hsent | room _ _ _ _ hsent => exact replied_of_taken hjob hsent hnone'
  | full _ _ _ _ hsent =>
      rw [takes_of_sent hsent]
      exact .crowded hjob hnone'
  | down hdown _ hsent =>
      refine replied_of_refused hjob hsent (fun hreached => ?_) hnone'
      cases hdown.symm.trans (hup hreached)

/-- An answer whose handler runs has nothing to do, and one that is gone neither. -/
theorem idle
    (hget : c.jobs.get? i = some (.answer call.id call.method .running) ∨ c.jobs.get? i = none) :
    c.move (.advance i) = c.pause i ∧ brings i c (.advance i) = [] := by
  rcases hget with hget | hget
  · simp [move, stepJob?, stepAnswer?, brings, Job.reply?, hget]
  · simp [move, stepJob?, brings, hget]

/-- The answer makes a step.  Whatever it does, it has begun then. -/
theorem own (h : Course c i call handler? kept begun up brought taken invoked)
    (hi : i < c.nextJob) :
    Course (c.move (.advance i)) i call handler? kept True (up ∧ c.link.isUp = true)
      (brought ++ brings i c (.advance i)) (taken ++ takes i c (.advance i)) invoked := by
  have hidle : c.jobs.get? i = some (.answer call.id call.method .running) ∨
      c.jobs.get? i = none →
      Course c i call handler? kept True (up ∧ c.link.isUp = true) brought taken invoked →
      Course (c.move (.advance i)) i call handler? kept True (up ∧ c.link.isUp = true)
        (brought ++ brings i c (.advance i)) (taken ++ takes i c (.advance i)) invoked := by
    intro hget h
    obtain ⟨hmove, hbrings⟩ := idle hget
    rw [hbrings, takes_of_sent (by rw [hmove]; rfl), hmove, List.append_nil, List.append_nil]
    exact h.pause i
  cases h with
  | fresh _ hget hnone => exact own_fresh hget hnone hi
  | handled hhandler hget hhandle honly hunderway =>
      exact hidle (hget.imp_right And.right) (.handled hhandler hget hhandle honly hunderway)
  | ready hget hnone => exact own_ready hget hnone And.right
  | crowded hget hnone =>
      obtain ⟨hbrings, hcourse⟩ := own_crowded hget hnone And.right
      rw [hbrings]
      exact hcourse
  | replied hget hnone htaken hwhole =>
      exact hidle (.inr hget) (.replied hget hnone htaken fun hup => hwhole hup.1)
  | lost hkept hget hnone hbrought htaken hinvoked hwhole =>
      exact hidle hget (.lost hkept hget hnone hbrought htaken hinvoked hwhole)

/-- The answer is given up. -/
theorem given_up (h : Course c i call handler? kept begun up brought taken invoked)
    (hnumbered : c.Numbered) (hserved : c.Served) :
    Course (c.move (.drop i)) i call handler? False begun up brought taken invoked := by
  have hget : (c.move (.drop i)).jobs.get? i = none := get?_dropJob c i
  have hspares := c.spares_move (.drop i)
  have hnone : (∀ k, c.serves k ≠ some i) → ∀ k, (c.move (.drop i)).serves k ≠ some i :=
    fun hnone => unserved_move hnone List.not_mem_nil
  have hlost : ∀ {brought taken}, (∀ k, c.serves k ≠ some i) →
      brought <+: [call.reply (call.outcome handler?)] → taken <+: brought →
      Course (c.move (.drop i)) i call handler? False begun up brought taken
        (call.invocations handler?) :=
    fun hfree hbrought htaken => .lost id (.inr hget) (hnone hfree) hbrought htaken
      (List.prefix_refl _) fun _ => rfl
  cases h with
  | fresh _ _ hfree =>
      exact .lost id (.inr hget) (hnone hfree) List.nil_prefix List.nil_prefix List.nil_prefix
        (fun hne => absurd rfl hne)
  | @handled k handler stage noted hhandler _ hhandle honly hunderway =>
      have hk : c.serves k = some i := serves_of_get? hhandle
      have hkept := hspares.kept k (hnumbered k _ hhandle)
        (by simpa [touched] using hserved.ne hk)
      refine .handled hhandler (.inr ⟨id, hget⟩) (hkept.trans hhandle) ?_ hunderway
      intro j hj
      rcases hspares.serves j i hj with hold | ⟨-, hmem⟩
      · exact honly j hold
      · cases hmem
  | ready _ hfree => exact hlost hfree List.nil_prefix List.nil_prefix
  | crowded _ hfree => exact hlost hfree (List.prefix_refl _) List.nil_prefix
  | replied _ hfree htaken => exact hlost hfree (List.prefix_refl _) htaken
  | lost _ _ hfree hbrought htaken hinvoked hwhole =>
      exact .lost id (.inr hget) (hnone hfree) hbrought htaken hinvoked hwhole

theorem invokes_of_notes {more : List Note} (hk : c.serves k = some i)
    (hnotes : (c.move (.advance k)).notes = c.notes ++ more) :
    invokes i c (.advance k) = more := by
  rw [invokes, if_pos hk, hnotes, List.drop_left]

/-- The handler that runs for an answer is the one that its course tells of. -/
theorem handler_of (h : Course c i call handler? kept begun up brought taken invoked)
    (hk : c.serves k = some i) :
    ∃ handler stage, handler? = some handler ∧ brought = [] ∧ taken = [] ∧
      (c.jobs.get? i = some (.answer call.id call.method .running) ∨
        ¬ kept ∧ c.jobs.get? i = none) ∧
      c.jobs.get? k = some (.handle i handler call.method stage) ∧
      (∀ j, c.serves j = some i → j = k) ∧ Underway call handler stage invoked := by
  cases h with
  | @handled k' handler stage noted hhandler hget hhandle honly hunderway =>
      obtain rfl := honly k hk
      exact ⟨handler, stage, hhandler, rfl, rfl, hget, hhandle, honly, hunderway⟩
  | ready _ hfree | crowded _ hfree | replied _ hfree => exact absurd hk (hfree k)
  | fresh _ _ hfree | lost _ _ hfree => exact absurd hk (hfree k)

/-- The handler ends: the reply is ready, if the answer is still there. -/
theorem handler_ends (hhandler : handler? = some handler)
    (hget : c.jobs.get? i = some (.answer call.id call.method .running) ∨
      ¬ kept ∧ c.jobs.get? i = none)
    (honly : ∀ j, c.serves j = some i → j = k) (hne : k ≠ i) (hk : c.serves k = some i)
    (hnoted : invoked = call.invocations (some handler))
    (hmove : c.move (.advance k) =
      c.finishHandling k i (call.outcome (some handler))) :
    Course (c.move (.advance k)) i call handler? kept begun up [] []
      (invoked ++ invokes i c (.advance k)) := by
  have hremoved : (c.removeJob k).jobs.get? i = c.jobs.get? i :=
    Dictionary.get?_erase_of_ne _ (Ne.symm hne)
  have hfree : ∀ j, (c.removeJob k).serves j ≠ some i := by
    intro j hj
    rw [Client.serves, removeJob, Dictionary.get?_erase] at hj
    split at hj
    · cases hj
    · next hother => exact hother (honly j hj).symm
  have hinvokes : (c.move (.advance k)).notes = c.notes → invokes i c (.advance k) = [] :=
    fun hnotes => invokes_of_notes hk (by rw [hnotes, List.append_nil])
  rw [hnoted, ← hhandler]
  rw [finishHandling] at hmove
  rcases hget with hget | ⟨hkept, hget⟩
  · simp only [hremoved, hget] at hmove
    obtain ⟨ready, hwake⟩ := wake_eq ((c.removeJob k).setJob i
      (.answer call.id call.method (.ready (call.outcome (some handler))))) i
    rw [hwake, ← hhandler] at hmove
    rw [hinvokes (by rw [hmove]; rfl), List.append_nil, hmove]
    refine .ready (Dictionary.get?_put_self _ _ _) ?_
    intro j hj
    rw [Client.serves, setJob, Dictionary.get?_put] at hj
    split at hj
    · cases hj
    · exact hfree j hj
  · simp only [hremoved, hget] at hmove
    rw [hinvokes (by rw [hmove]; rfl), List.append_nil, hmove]
    exact .lost hkept (.inr (hremoved.trans hget)) hfree List.nil_prefix List.nil_prefix
      (List.prefix_refl _) fun hne => absurd rfl hne

/-- The handler makes a step. -/
theorem handler_step (h : Course c i call handler? kept begun up brought taken invoked)
    (hserved : c.Served) (hk : c.serves k = some i) :
    Course (c.move (.advance k)) i call handler? kept begun up brought taken
      (invoked ++ invokes i c (.advance k)) := by
  obtain ⟨handler, stage, hhandler, rfl, rfl, hget, hhandle, honly, hunderway⟩ := h.handler_of hk
  have hne : k ≠ i := hserved.ne hk
  have hmove : c.move (.advance k) =
      (c.stepHandle? k i handler call.method stage).getD (c.pause k) := by
    rw [move, stepJob?, hhandle]
  have hstep := hunderway.step c k i
  cases hresult : c.stepHandle? k i handler call.method stage with
  | none =>
      rw [hresult, Option.getD_none] at hmove
      have hnotes : (c.move (.advance k)).notes = c.notes ++ [] := by
        rw [hmove, List.append_nil]
        rfl
      rw [invokes_of_notes hk hnotes, List.append_nil, hmove]
      exact h.pause k
  | some c' =>
      rw [hresult] at hstep
      rw [hresult, Option.getD_some] at hmove
      cases hstep with
      | @on c₁ stage' more hjobs hnotes hon =>
          rw [invokes_of_notes hk (by rw [hmove]; exact hnotes), hmove]
          have hothers : ∀ j, j ≠ k → (c₁.setJob k
              (.handle i handler call.method stage')).jobs.get? j = c.jobs.get? j := by
            intro j hj
            rw [setJob, hjobs, Dictionary.get?_put_of_ne _ _ hj]
          refine .handled hhandler ?_ (Dictionary.get?_put_self _ _ _) ?_ hon
          · rw [hothers i (Ne.symm hne)]
            exact hget
          · intro j hj
            by_contra hother
            rw [Client.serves, hothers j hother] at hj
            exact hother (honly j hj)
      | ends hnoted => exact handler_ends hhandler hget honly hne hk hnoted hmove

/-- The handler is given up. -/
theorem handler_given_up (h : Course c i call handler? kept begun up brought taken invoked)
    (hserved : c.Served) (hi : i < c.nextJob) (hk : c.serves k = some i) :
    Course (c.move (.drop k)) i call handler? False begun up brought taken invoked := by
  obtain ⟨handler, stage, hhandler, rfl, rfl, hget, hhandle, honly, hunderway⟩ := h.handler_of hk
  have hspares := c.spares_move (.drop k)
  have hkept := hspares.kept i hi (by simpa [touched] using (hserved.ne hk).symm)
  refine .lost id ?_ ?_ List.nil_prefix List.nil_prefix ?_ fun hne => absurd rfl hne
  · rw [hkept]
    exact hget.imp_right And.right
  · intro j hj
    rcases hspares.serves j i hj with hold | ⟨-, hmem⟩
    · rw [honly j hold, Client.serves, show (c.move (.drop k)).jobs.get? k = none from
        get?_dropJob c k] at hj
      cases hj
    · cases hmem
  · rw [hhandler]
    exact hunderway.prefix_invocations

/-- Whatever happens, an answer goes on its way. -/
theorem move (h : Course c i call handler? kept begun up brought taken invoked)
    (hnumbered : c.Numbered) (hserved : c.Served) (hi : i < c.nextJob) (m : Move) :
    Course (c.move m) i call handler? (kept ∧ Lets i c m) (begun ∨ m = .advance i)
      (up ∧ Reaches i c m) (brought ++ brings i c m) (taken ++ takes i c m)
      (invoked ++ invokes i c m) := by
  by_cases hadvance : m = .advance i
  · subst hadvance
    have hinvokes : invokes i c (.advance i) = [] := if_neg fun hserves => hserved.ne hserves rfl
    rw [hinvokes, List.append_nil]
    exact (h.own hi).mono And.left (fun _ => trivial) fun hup => ⟨hup.1, hup.2 rfl⟩
  have hbegun : begun ∨ m = .advance i → begun := Or.rec id fun hm => absurd hm hadvance
  rw [show brings i c m = [] from if_neg hadvance, show takes i c m = [] from if_neg hadvance,
    List.append_nil, List.append_nil]
  by_cases hdrop : m = .drop i
  · subst hdrop
    rw [show invokes i c (.drop i) = [] from rfl, List.append_nil]
    exact (h.given_up hnumbered hserved).mono (fun hlets => (hlets.2 i rfl).1 rfl) hbegun And.left
  by_cases hhandler : ∃ k, c.serves k = some i ∧ (m = .advance k ∨ m = .drop k)
  · obtain ⟨k, hk, rfl | rfl⟩ := hhandler
    · exact (h.handler_step hserved hk).mono And.left hbegun And.left
    · rw [show invokes i c (.drop k) = [] from rfl, List.append_nil]
      exact (h.handler_given_up hserved hi hk).mono (fun hlets => (hlets.2 k rfl).2 hk) hbegun
        And.left
  have hfree : ∀ k, c.serves k = some i → m ≠ .advance k ∧ m ≠ .drop k :=
    fun k hk => ⟨fun hm => hhandler ⟨k, hk, .inl hm⟩, fun hm => hhandler ⟨k, hk, .inr hm⟩⟩
  have hinvokes : invokes i c m = [] := by
    cases m with
    | advance k => exact if_neg fun hk => (hfree k hk).1 rfl
    | _ => rfl
  rw [hinvokes, List.append_nil]
  exact (h.others hnumbered hserved hi hadvance hdrop hfree).mono And.left hbegun And.left

theorem run (h : Course c i call handler? kept begun up brought taken invoked)
    (hnumbered : c.Numbered) (hserved : c.Served) (hi : i < c.nextJob) (moves : List Move) :
    Course (c.run moves) i call handler? (kept ∧ c.Throughout (Lets i) moves)
      (begun ∨ .advance i ∈ moves) (up ∧ c.Throughout (Reaches i) moves)
      (brought ++ c.gathered (brings i) moves) (taken ++ c.gathered (takes i) moves)
      (invoked ++ c.gathered (invokes i) moves) := by
  induction moves generalizing c kept begun up brought taken invoked with
  | nil =>
      simp only [gathered, List.append_nil, run_nil]
      exact h.mono And.left (Or.rec id fun hmem => absurd hmem List.not_mem_nil) And.left
  | cons m rest ih =>
      have hnext := ih (h.move hnumbered hserved hi m) (hnumbered.move m) (hserved.move hnumbered m)
        (Nat.lt_of_lt_of_le hi (inherits_move hnumbered m).nextJob)
      simp only [gathered, run_cons, ← List.append_assoc]
      refine hnext.mono (fun hkept => ⟨⟨hkept.1, hkept.2.1⟩, hkept.2.2⟩) (fun hbegun => ?_)
        fun hup => ⟨⟨hup.1, hup.2.1⟩, hup.2.2⟩
      rw [List.mem_cons, ← or_assoc] at hbegun
      exact hbegun.imp_left (Or.imp_right Eq.symm)

/-- An answer brings its own reply, once, and its handler is invoked as the call says. -/
theorem bounded (h : Course c i call handler? kept begun up brought taken invoked) :
    brought <+: [call.reply (call.outcome handler?)] ∧ taken <+: brought ∧
      invoked <+: call.invocations handler? ∧
      (brought ≠ [] → invoked = call.invocations handler?) := by
  cases h with
  | fresh =>
      exact ⟨List.nil_prefix, List.nil_prefix, List.nil_prefix, fun hne => absurd rfl hne⟩
  | handled hhandler _ _ _ hunderway =>
      refine ⟨List.nil_prefix, List.nil_prefix, ?_, fun hne => absurd rfl hne⟩
      rw [hhandler]
      exact hunderway.prefix_invocations
  | ready => exact ⟨List.nil_prefix, List.nil_prefix, List.prefix_refl _, fun _ => rfl⟩
  | crowded => exact ⟨List.prefix_refl _, List.nil_prefix, List.prefix_refl _, fun _ => rfl⟩
  | replied _ _ htaken => exact ⟨List.prefix_refl _, htaken, List.prefix_refl _, fun _ => rfl⟩
  | lost _ _ _ hbrought htaken hinvoked hwhole =>
      exact ⟨hbrought, htaken, hinvoked, hwhole⟩

/-- An answer that has begun and whose handler does not run brings its reply with its next step. -/
theorem prompt (h : Course c i call handler? True True up brought taken invoked)
    (hnone : ∀ k, c.serves k ≠ some i) :
    brought = [call.reply (call.outcome handler?)] ∨
      brings i c (.advance i) = [call.reply (call.outcome handler?)] := by
  cases h with
  | fresh hbegun => exact absurd trivial hbegun
  | @handled k _ _ _ _ _ hhandle => exact absurd (serves_of_get? hhandle) (hnone k)
  | ready hget =>
      right
      simp [brings, hget, Job.reply?, call.toJson_ofOutcome]
  | crowded | replied => exact .inl rfl
  | lost hkept => exact absurd trivial hkept

/-- An answer that has not brought its reply can make a step, or its handler can, or that waits for
what its script says. -/
theorem goes_on (h : Course c i call handler? True begun up brought taken invoked) :
    brought = [call.reply (call.outcome handler?)] ∨ (c.stepJob? i).isSome ∨
      ∃ k, c.serves k = some i ∧ ((c.stepJob? k).isSome ∨
        ∃ handler signal, handler? = some handler ∧ handler.signal? = some signal ∧
          c.awaits signal k = true) := by
  cases h with
  | fresh _ hget =>
      right; left
      rw [stepJob?, hget]
      cases handler? <;> rfl
  | @handled k handler stage _ hhandler hget hhandle _ hunderway =>
      right; right
      refine ⟨k, serves_of_get? hhandle, ?_⟩
      have hstep := hunderway.step c k i
      rw [show c.stepHandle? k i handler call.method stage = c.stepJob? k by
        rw [stepJob?, hhandle]] at hstep
      cases hresult : c.stepJob? k with
      | some c' => exact .inl rfl
      | none =>
          rw [hresult] at hstep
          cases hstep with
          | awaits hsignal hawaits => exact .inr ⟨handler, _, hhandler, hsignal, hawaits⟩
  | ready hget =>
      right; left
      rw [stepJob?, hget]
      dsimp only [stepAnswer?]
      split <;> rfl
  | crowded | replied => exact .inl rfl
  | lost hkept => exact absurd trivial hkept

/-- Only an answer that is ready brings its reply. -/
theorem ready_of_brings (h : Course c i call handler? kept begun up brought taken invoked)
    (hbrings : brings i c (.advance i) ≠ []) :
    c.jobs.get? i = some (.answer call.id call.method (.ready (call.outcome handler?))) := by
  have hidle : c.jobs.get? i = some (.answer call.id call.method .running) ∨
      c.jobs.get? i = none → False := fun hget => hbrings (idle hget).2
  cases h with
  | ready hget => exact hget
  | fresh _ hget => exact absurd (by simp [brings, hget, Job.reply?]) hbrings
  | crowded hget => exact absurd (by simp [brings, hget, Job.reply?]) hbrings
  | handled _ hget => exact (hidle (hget.imp_right And.right)).elim
  | replied hget => exact (hidle (.inr hget)).elim
  | lost _ hget => exact (hidle hget).elim

/-- The link has taken a reply that was brought, or the answer waits for room. -/
theorem delivered (h : Course c i call handler? True begun True brought taken invoked)
    (hbrought : brought = [call.reply (call.outcome handler?)]) :
    taken = [call.reply (call.outcome handler?)] ∨
      c.jobs.get? i = some (.answer call.id call.method (.crowded (call.outcome handler?))) := by
  cases h with
  | crowded hget => exact .inr hget
  | replied _ _ _ hup => exact .inl (hup trivial)
  | fresh | handled | ready => cases hbrought
  | lost hkept => exact absurd trivial hkept

theorem unprovided (h : Course c i call none kept begun up brought taken invoked) :
    ∀ k, c.serves k ≠ some i := by
  cases h with
  | handled hhandler => cases hhandler
  | ready _ hnone | crowded _ hnone | replied _ hnone => exact hnone
  | fresh _ _ hnone | lost _ _ hnone => exact hnone

end Course

/-- What comes of the answer `i`, from when it is started, whatever happens.  One reply is brought
to the link, the one that the call and the handler ask for, and the link takes it at most once: at
once, or when there is room, unless it is down.  The handler is invoked at most once, and there is
no reply without that.  Once the handler has ended, the answer brings its reply with its next step,
and until then nothing but the handler holds it up. -/
structure Answered (c : Client) (i : JobId) (call : ProviderCall) (handler? : Option Handler)
    (since : List Move) : Prop where
  once : c.gathered (brings i) since <+: [call.reply (call.outcome handler?)]
  taken : c.gathered (takes i) since <+: c.gathered (brings i) since
  handed : ∀ first second, since = first ++ .advance i :: second →
    brings i (c.run first) (.advance i) ≠ [] →
    ∃ step, (c.run first).Offered i (call.reply (call.outcome handler?))
        ((c.run first).move (.advance i)) step ∧
      ((c.run first).move (.advance i)).jobs.get? i = if step = .waits then
        some (.answer call.id call.method (.crowded (call.outcome handler?))) else none
  waited : ∀ first second, since = first ++ .advance i :: second →
    (c.run first).jobs.get? i =
      some (.answer call.id call.method (.crowded (call.outcome handler?))) →
    ∃ step, (c.run first).OfferedAgain i (call.reply (call.outcome handler?))
        ((c.run first).move (.advance i)) step ∧
      ((c.run first).move (.advance i)).jobs.get? i = if step = .waits then
        some (.answer call.id call.method (.crowded (call.outcome handler?))) else none
  delivered : c.Throughout (Lets i) since → c.Throughout (Reaches i) since →
    c.gathered (brings i) since = [call.reply (call.outcome handler?)] →
    c.gathered (takes i) since = [call.reply (call.outcome handler?)] ∨
      (c.run since).jobs.get? i =
        some (.answer call.id call.method (.crowded (call.outcome handler?)))
  invoked : c.gathered (invokes i) since <+: call.invocations handler?
  whole : c.gathered (brings i) since ≠ [] →
    c.gathered (invokes i) since = call.invocations handler?
  unprovided : handler? = none → ∀ k, (c.run since).serves k ≠ some i
  prompt : c.Throughout (Lets i) since → .advance i ∈ since →
    (∀ k, (c.run since).serves k ≠ some i) →
    c.gathered (brings i) since = [call.reply (call.outcome handler?)] ∨
      brings i (c.run since) (.advance i) = [call.reply (call.outcome handler?)]
  goesOn : c.Throughout (Lets i) since →
    c.gathered (brings i) since = [call.reply (call.outcome handler?)] ∨
      ((c.run since).stepJob? i).isSome ∨
      ∃ k, (c.run since).serves k = some i ∧ (((c.run since).stepJob? k).isSome ∨
        ∃ handler signal, handler? = some handler ∧ handler.signal? = some signal ∧
          (c.run since).awaits signal k = true)

/-- What comes in is not held up, whatever answers there are to be given: who takes in what comes
through the channel can go on, and each frame has its effect with the move that brings it. -/
structure Undelayed (c : Client) : Prop where
  frames : ∀ j, c.jobs.get? j = some .receive → c.inbox.frames ≠ [] → (c.stepJob? j).isSome
  replies : ∀ m r, c.replyIn? m = some r → c.move m = ((c.taking m).deliverResponse r).1
  notices : ∀ m notice, c.notice? m = some notice →
    c.move m = ((c.taking m).dispatch notice.event notice.value).1
  calls : ∀ m call, c.providerCall? m = some call → c.move m = (c.taking m).startAnswer call

theorem undelayed (c : Client) : c.Undelayed where
  frames := by
    intro j hget hframes
    rw [stepJob?, hget]
    obtain ⟨text, rest, hcons⟩ := List.exists_cons_of_ne_nil hframes
    simp [stepReceive?, hcons]
  replies := fun _ _ => move_of_reply
  notices := fun _ _ => move_of_notice
  calls := fun _ _ => move_of_providerCall

/-- The answer to a call that comes in is started with the handler that is provided then. -/
theorem get?_of_providerCall (hcall : c.providerCall? m = some call) :
    (c.move m).jobs.get? c.nextJob = some (.answer call.id call.method
      (.fresh (c.providers.get? call.method) call.params)) ∧
      (c.move m).nextJob = c.nextJob + 1 := by
  rw [move_of_providerCall hcall, startAnswer]
  obtain ⟨ready, heq⟩ := (c.taking m).start_eq (.answer call.id call.method
    (.fresh ((c.taking m).providers.get? call.method) call.params))
  have hnext : (c.taking m).nextJob = c.nextJob := by cases m <;> rfl
  have hproviders : (c.taking m).providers = c.providers :=
    congrArg Roll.providers (roll_taking c m)
  rw [heq, hnext, hproviders]
  exact ⟨Dictionary.get?_put_self _ _ _, rfl⟩

/-- A call that comes in is answered as it asks to be by the handler that is provided then. -/
theorem answered_of_providerCall (hnumbered : c.Numbered) (hserved : c.Served)
    (hcall : c.providerCall? m = some call) (since : List Move) :
    (c.move m).Answered c.nextJob call (c.providers.get? call.method) since := by
  obtain ⟨hget, hnext⟩ := get?_of_providerCall hcall
  have hnone : ∀ k, (c.move m).serves k ≠ some c.nextJob := by
    apply Course.unserved_move
    · exact fun k hk => Nat.lt_irrefl _ (hserved k _ hk).1
    · intro hmem
      obtain ⟨-, id, method, stage, hget'⟩ := mem_starting hmem
      exact Nat.lt_irrefl _ (hnumbered _ _ hget')
  have hstart : Course (c.move m) c.nextJob call (c.providers.get? call.method) True False True
      [] [] [] := .fresh id hget hnone
  have hruns := fun since => hstart.run (hnumbered.move m) (hserved.move hnumbered m)
    (by rw [hnext]; exact Nat.lt_succ_self _) since
  have hcourse := hruns since
  obtain ⟨honce, htaken, hinvoked, hwhole⟩ := hcourse.bounded
  refine ⟨honce, htaken, ?_, ?_, ?_, hinvoked, hwhole, ?_, ?_, ?_⟩
  · intro first second _ hbrings
    rw [← call.toJson_ofOutcome]
    exact offered_of_ready ((hruns first).ready_of_brings hbrings)
  · intro first second _ hcrowded
    rw [← call.toJson_ofOutcome]
    exact offeredAgain_of_crowded hcrowded
  · intro hkept hup
    exact (hcourse.mono (fun _ => ⟨trivial, hkept⟩) id fun _ => ⟨trivial, hup⟩).delivered
  · intro hhandler
    rw [hhandler] at hcourse
    exact hcourse.unprovided
  · intro hkept hbegun
    exact (hcourse.mono (fun _ => ⟨trivial, hkept⟩) (fun _ => .inr hbegun) id).prompt
  · intro hkept
    exact (hcourse.mono (fun _ => ⟨trivial, hkept⟩) id id).goes_on

end Client

end GatewayClient
