/-
The catalog lists the names that members put on the wire.  Whatever an operation of a member hands
over is a request by the name of an entry of the member for that use, a method's with the deadline
of the entry; and every entry has an operation that hands over a request by its name.
-/
import GatewayClient.Client.Operation
import GatewayClient.Proofs.Client.Answers
import GatewayClient.Proofs.Client.Deadlines
import GatewayClient.Proofs.Shape.RoundTrip

namespace GatewayClient

deriving instance Inhabited for Binary64, SkipRestriction, Lifespan,
  AdditionalInfoEntry, AdditionalInfoKey, ClosedCaptionsStyles, ClosedCaptionsSettings,
  VoiceGuidanceSettings, AudioDescriptionSettings, SemanticVersion, DeviceVersion, HdcpVersionMap,
  HdrFormatMap, AudioProfiles, NetworkState, NetworkType, NetworkInfo, ProvisionRequest, AdPolicy,
  AdConfigurationOptions, AdvertisingIdScope, AdvertisingIdOptions, AdvertisingIdResult,
  ContentParams, PageParams, ActionCategory, ActionParams, ErrorType, ErrorParams, MediaParams,
  MediaProgressParams, MediaSeekingParams, MediaSeekedParams, MediaRateChangeParams,
  MediaRenditionChangeParams, AppParams, CapabilityParams, AppInfo, Role, GrantState, GrantInfo,
  GrantModificationOptions, GrantModification, Permission, RequestOptions, GrantRequest,
  KeyboardRequest, ChallengeRequestor, PinSpace, PinChallenge, ResultReason, PinChallengeResult,
  Challenge, GrantResult

deriving instance Inhabited for LatLon, Resolution

namespace Payload

theorem exists_finite (p : Payload) : ∃ x, p.Finite x := by
  cases p with
  | closedCaptionsSettings | closedCaptionsStyles => exact ⟨default, nofun⟩
  | latLon => exact ⟨default, rfl, rfl⟩
  | number | voiceGuidanceSettings | mediaProgressParams | mediaSeekingParams | mediaSeekedParams
  | mediaRateChangeParams => exact ⟨default, rfl⟩
  | _ => exact ⟨default, trivial⟩

/-- Every payload has a value that can be written. -/
theorem exists_normalize (p : Payload) : ∃ value written, p.normalize value = some written := by
  obtain ⟨x, hx⟩ := p.exists_finite
  have hreads : p.codec.decode (p.codec.encode x) = some x := p.faithful.reads x hx
  exact ⟨p.codec.encode x, p.codec.encode x, by rw [normalize, Codec.normalize, hreads]; rfl⟩

end Payload

/-- The operations of a member, each with the use that it makes of a wire name.  A value that cannot
be written may be tried. -/
inductive Member.Does : Member → EntryKind → Activity → Prop
  | get (p : Property) : Does (.property p) .getter p.get
  | set {p : Property} {value : Json} {activity : Activity} (hset : p.set? value = some activity) :
    Does (.property p) .setter activity
  | setNone {p : Property} (hwritable : p.writable = true) :
    Does (.property p) .setter (p.setTo none)
  | onChange (p : Property) (listenerName : String) :
    Does (.property p) .event (p.onChange listenerName)
  | offChange (p : Property) (id : UInt64) : Does (.property p) .event (p.offChange id)
  | call {m : Method} {params : Json} {activity : Activity}
    (hcall : m.call? params = some activity) : Does (.method m) .method activity
  | subscribe (e : Event) (listenerName : String) :
    Does (.event e) .event (e.subscribe listenerName)
  | unsubscribe (e : Event) (id : UInt64) : Does (.event e) .event (e.unsubscribe id)
  | provide (c : Capability) (handlerName label : String) (script : Script) :
    Does (.capability c) .provider (c.provide handlerName label script)
  | revoke (c : Capability) : Does (.capability c) .provider c.revoke

namespace Client

variable {c c' c₁ : Client} {i : JobId} {m : Move} {call : Call} {change : Change}
  {table : Table} {sent : List Json} {frame : Json}

/-- The call that a job makes, if it is for one call or for one change. -/
def callOfJob? (c : Client) : Job → Option Call
  | .call call _ _ => some call
  | .change change _ => some (c.changeCall change)
  | _ => none

theorem callOfJob?_congr (hsettings : c'.settings = c.settings) (job : Job) :
    c'.callOfJob? job = c.callOfJob? job := by
  cases job with
  | change change stage => rw [callOfJob?, callOfJob?, changeCall, hsettings, ← changeCall]
  | call | provideAll | withdraw | answer | handle | sweep | receive => rfl

/-- A job that was started for one call, and that no handler runs for. -/
structure Makes (c : Client) (i : JobId) (call : Call) : Prop where
  started : i < c.nextJob
  unserved : ∀ k, c.serves k ≠ some i
  only : ∀ job, c.jobs.get? i = some job → c.callOfJob? job = some call

/-- What the step of a job that makes one call can be: the job is gone or is for its call as before,
and nothing is handed over but the request of the call. -/
structure StepsFor (c : Client) (i : JobId) (call : Call) (c' : Client) : Prop where
  only : ∀ job, c'.jobs.get? i = some job → c.callOfJob? job = some call
  sent : c'.sent = c.sent ∨ ∃ id slot, c'.sent = c.sent ++ [requestFrame call id] ∧
    c'.callAt i = some (call, .waiting id slot (c.now + c.timeoutOf call))

theorem CallStep.sends {stage stage' : CallStage} (h : CallStep c call stage table sent stage') :
    sent = c.sent ∨ ∃ id slot, sent = c.sent ++ [requestFrame call id] ∧
      stage' = .waiting id slot (c.now + c.timeoutOf call) := by
  cases h with
  | hand hunsent hentry => exact Or.inr ⟨_, _, rfl, rfl⟩
  | enter | queue | refuse | take | miss | expire | cancel => exact Or.inl rfl

theorem stepCall_sends {stage stage' : CallStage}
    (hmoved : c.stepCall i call stage = .moved c' stage') :
    c'.sent = c.sent ∨ ∃ id slot, c'.sent = c.sent ++ [requestFrame call id] ∧
      stage' = .waiting id slot (c.now + c.timeoutOf call) := by
  obtain ⟨table, sent, hstep, link, ready, rfl⟩ := stepCall_moved hmoved
  exact hstep.sends

theorem ChangeStep.sends {stage stage' : ChangeStage} (h : ChangeStep c i change stage c' stage') :
    c'.sent = c.sent ∨ ∃ id slot, c'.sent = c.sent ++ [requestFrame (c.changeCall change) id] ∧
      stage' = .calling (.waiting id slot (c.now + c.timeoutOf (c.changeCall change))) := by
  cases h with
  | refer => exact Or.inl (Rearranges.setGatesOf c change _).sent
  | join => exact Or.inl (Rearranges.setGatesOf c change _).sent
  | enter howns => exact Or.inl (Rearranges.enterChange c change).sent
  | call hmoved =>
      rcases stepCall_sends hmoved with hsent | ⟨id, slot, hsent, rfl⟩
      · exact Or.inl hsent
      · exact Or.inr ⟨id, slot, hsent, rfl⟩
  | settle hover =>
      obtain ⟨table, link, ready, rfl⟩ := hands_of_over hover
      exact Or.inl (Rearranges.settleChange _ change).sent
  | fail hover =>
      obtain ⟨table, link, ready, rfl⟩ := hands_of_over hover
      exact Or.inl rfl
  | release =>
      exact Or.inl ((Rearranges.setGatesOf c change _).trans (.wakeOption _ _)).sent

theorem stepsFor_call {expected : Expected} {stage : CallStage}
    (hget : c.jobs.get? i = some (.call call expected stage)) :
    c.StepsFor i call (c.move (.advance i)) := by
  rw [move, stepJob?, hget]
  dsimp only
  cases hstep : c.stepCall i call stage with
  | blocked =>
      refine ⟨fun job hjob => ?_, Or.inl rfl⟩
      cases hget.symm.trans hjob
      rfl
  | moved c₁ stage' =>
      have hafter : (c₁.setJob i (.call call expected stage')).jobs.get? i =
          some (.call call expected stage') := Dictionary.get?_put_self _ _ _
      refine ⟨fun job hjob => ?_, ?_⟩
      · cases hafter.symm.trans hjob
        rfl
      · rcases stepCall_sends hstep with hsent | ⟨id, slot, hsent, rfl⟩
        · exact Or.inl hsent
        · exact Or.inr ⟨id, slot, hsent, callAt_of_work? hafter rfl⟩
  | «over» c₁ outcome =>
      obtain ⟨table, link, ready, rfl⟩ := hands_of_over hstep
      refine ⟨fun job hjob => ?_, Or.inl rfl⟩
      cases (Dictionary.get?_erase_self _ _).symm.trans hjob

theorem stepsFor_change {stage : ChangeStage}
    (hget : c.jobs.get? i = some (.change change stage)) :
    c.StepsFor i (c.changeCall change) (c.move (.advance i)) := by
  cases hstep : c.stepChange i change stage with
  | blocked =>
      have hmove : c.move (.advance i) = c.pause i := by
        simp only [move, stepJob?, hget, hstep, Option.getD_none]
      rw [hmove]
      refine ⟨fun job hjob => ?_, Or.inl rfl⟩
      cases hget.symm.trans hjob
      rfl
  | moved c₁ stage' =>
      have hmove : c.move (.advance i) = c₁.setJob i (.change change stage') := by
        simp only [move, stepJob?, hget, hstep, Option.getD_some]
      have hafter : (c₁.setJob i (.change change stage')).jobs.get? i =
          some (.change change stage') := Dictionary.get?_put_self _ _ _
      rw [hmove]
      refine ⟨fun job hjob => ?_, ?_⟩
      · cases hafter.symm.trans hjob
        rfl
      · have hstep' := stepChange_moved hstep
        have hsettings : (c₁.setJob i (.change change stage')).settings = c.settings :=
          hstep'.acts.settings
        rcases hstep'.sends with hsent | ⟨id, slot, hsent, rfl⟩
        · exact Or.inl hsent
        · refine Or.inr ⟨id, slot, hsent, ?_⟩
          rw [callAt_of_work? hafter rfl, callOf?_congr hsettings]
          rfl
  | «over» c₁ result =>
      refine ⟨fun job hjob => ?_, ?_⟩
      · rw [get?_move_of_over hget hstep] at hjob
        cases hjob
      · have hmove : c.move (.advance i) = c₁.finishChange i change result := by
          simp only [move, stepJob?, hget, hstep, Option.getD_some]
        obtain ⟨rfl, rfl⟩ := stepChange_over hstep
        rw [hmove]
        exact Or.inl ((Leaves.finishChange (.ofRearranges (.setGatesOf c change _)) change result
          ).sent.trans (Rearranges.setGatesOf c change _).sent)

namespace Makes

theorem stepsFor (h : c.Makes i call) : c.StepsFor i call (c.move (.advance i)) := by
  cases hget : c.jobs.get? i with
  | none =>
      rw [Client.move, stepJob?, hget]
      exact ⟨h.only, Or.inl rfl⟩
  | some job =>
      have hcall := h.only job hget
      cases job with
      | call call' expected stage =>
          cases hcall
          exact stepsFor_call hget
      | change change stage =>
          cases hcall
          exact stepsFor_change hget
      | provideAll | withdraw | answer | handle | sweep | receive => cases hcall

theorem ofBegin (hnumbered : c.Numbered) (hserved : c.Served) {activity : Activity}
    (hcall : c.callOfJob? activity.toJob = some call) :
    (c.move (.begin activity)).Makes c.nextJob call := by
  obtain ⟨ready, heq⟩ := c.start_eq activity.toJob
  have hmove : c.move (.begin activity) = (c.start activity.toJob).1 := rfl
  refine ⟨?_, ?_, fun job hget => ?_⟩
  · rw [hmove, heq]
    exact Nat.lt_succ_self _
  · apply Course.unserved_move
    · exact fun k hk => Nat.lt_irrefl _ (hserved k _ hk).1
    · exact List.not_mem_nil
  · rw [hmove, heq] at hget
    cases (Dictionary.get?_put_self _ _ _).symm.trans hget
    rw [← hcall]
    exact callOfJob?_congr (settings_move hnumbered _) _

theorem move (h : c.Makes i call) (hnumbered : c.Numbered) (m : Move) :
    (c.move m).Makes i call := by
  have hspares := c.spares_move m
  have hsettings := settings_move hnumbered m
  refine ⟨Nat.lt_of_lt_of_le h.started hspares.nextJob, ?_, fun job hget => ?_⟩
  · refine Course.unserved_move h.unserved fun hmem => ?_
    -- A handler is started only for an answer, which makes no call.
    obtain ⟨-, id, method, stage, hanswer⟩ := mem_starting hmem
    cases h.only _ hanswer
  · rw [callOfJob?_congr hsettings]
    by_cases htouched : i ∈ c.touched m
    · rcases eq_of_touched h.unserved htouched with rfl | rfl
      · exact h.stepsFor.only job hget
      · cases (get?_dropJob c i).symm.trans hget
    · rw [hspares.kept i h.started htouched] at hget
      exact h.only job hget

theorem run (h : c.Makes i call) (hnumbered : c.Numbered) (moves : List Move) :
    (c.run moves).Makes i call := by
  induction moves generalizing c with
  | nil => exact h
  | cons m rest ih => exact ih (h.move hnumbered m) (hnumbered.move m)

/-- A frame that the link takes from a job is the request of its call, which then waits for its
reply. -/
theorem request_of_takes (h : c.Makes i call) (hframe : frame ∈ c.takes i m) :
    ∃ id slot, frame = requestFrame call id ∧
      (c.move m).callAt i = some (call, .waiting id slot (c.now + c.timeoutOf call)) := by
  rw [takes] at hframe
  split at hframe
  · next hm =>
      subst hm
      rcases h.stepsFor.sent with hsent | ⟨id, slot, hsent, hcall⟩
      · rw [hsent, List.drop_length] at hframe
        cases hframe
      · rw [hsent, List.drop_left, List.mem_singleton] at hframe
        exact ⟨id, slot, hframe, hcall⟩
  · cases hframe

end Makes

/-- A call hands its request over with its second step, if the link is up. -/
theorem takes_of_call (settings : Settings) (expected : Expected) (hparams : call.params.isSome) :
    (((ofSettings settings (.direct .up)).move (.begin (.call call expected))).run
      [.advance 0]).takes 0 (.advance 0) = [requestFrame call 1] := by
  obtain ⟨method, _ | params, timeout⟩ := call
  · cases hparams
  · rfl

/-- The first to listen to an event, or to provide it, hands a request over with its fifth step. -/
theorem takes_of_change (settings : Settings) (hlistens : change.listens = true) :
    (((ofSettings settings (.direct .up)).move (.begin (.change change))).run
      (List.replicate 4 (.advance 0))).takes 0 (.advance 0) =
      [requestFrame ((ofSettings settings (.direct .up)).changeCall change) 1] := by
  cases change with
  | subscribe event listener => rfl
  | provide event handler => rfl
  | unsubscribe event id => cases hlistens
  | revoke event => cases hlistens

theorem method_requestFrame (call : Call) (id : UInt64) :
    (requestFrame call id).get? "method" = some (.string call.method) := by
  have hmembers : requestFrame call id = Json.ofMembers
      [("jsonrpc", .string protocolVersion), ("id", Json.ofWord id),
        ("method", .string call.method),
        ("params", Request.paramsOf (call.params.getD .null))] := rfl
  simp [hmembers, Json.ofMembers, Json.sortMembers, Json.get?, Json.member?_putMember]

end Client

theorem Property.mem_entries {p : Property} {e : Entry} : e ∈ p.entries ↔
    e = ⟨p.getter, p.module, .getter, none⟩ ∨ e = ⟨p.changeEvent, p.module, .event, none⟩ ∨
      p.writable = true ∧ e = ⟨p.setter, p.module, .setter, none⟩ := by
  rw [entries]
  split <;> simp [*]

namespace Member

open Client

variable {d : Member} {use : EntryKind} {activity : Activity} {e : Entry}

/-- With a move, a job hands over a request by the name of an entry.  The call of a method then
waits as long as the entry says, or else as long as the client lets calls wait. -/
structure Names (settings : Settings) (c : Client) (i : JobId) (m : Move) (frame : Json)
    (e : Entry) : Prop where
  method : frame.get? "method" = some (.string e.name)
  deadline : e.kind = .method → ∃ call id slot, frame = requestFrame call id ∧
    call.timeout = e.timeout ∧ (c.move m).callAt i =
      some (call, .waiting id slot (c.now + e.timeout.getD settings.waitTime))

/-- The entries of a member are the names that its operations put on the wire.  Whenever an
operation is begun, and whatever happens then, all that the link takes from its job are requests by
the names of entries for the use that the operation makes of a name; and every entry is the name of
such a request. -/
structure Listed (d : Member) : Prop where
  names : ∀ settings link before use activity, d.Does use activity →
    let c := (ofSettings settings link).run before
    ∀ since m, let now := (c.move (.begin activity)).run since
      ∀ frame ∈ now.takes c.nextJob m,
        ∃ e ∈ d.entries, e.kind = use ∧ Names settings now c.nextJob m frame e
  used : ∀ e ∈ d.entries, ∀ settings, ∃ activity, d.Does e.kind activity ∧ ∃ since m,
    let now := ((ofSettings settings (.direct .up)).move (.begin activity)).run since
    ∃ frame ∈ now.takes 0 m, Names settings now 0 m frame e
  setter : (∃ e ∈ d.entries, e.kind = .setter) ↔ ∃ p, d = .property p ∧ p.writable = true

/-- An operation makes one call, and that by the name of an entry. -/
theorem Does.exists_entry (h : d.Does use activity) (c : Client) :
    ∃ call, c.callOfJob? activity.toJob = some call ∧ ∃ e ∈ d.entries, e.kind = use ∧
      call.method = e.name ∧ (e.kind = .method → call.timeout = e.timeout) := by
  have hsetter : ∀ {p : Property}, p.writable = true →
      ⟨p.setter, p.module, .setter, none⟩ ∈ p.entries :=
    fun hwritable => Property.mem_entries.mpr (.inr (.inr ⟨hwritable, rfl⟩))
  cases h with
  | get p =>
      rw [Property.get_eq]
      exact ⟨_, rfl, _, List.mem_cons_self, rfl, rfl, nofun⟩
  | @set p value activity hset =>
      rw [Property.set?] at hset
      split at hset
      · next hwritable =>
          obtain ⟨written, -, rfl⟩ := Option.map_eq_some_iff.mp hset
          rw [Property.setTo_eq]
          exact ⟨_, rfl, _, hsetter hwritable, rfl, rfl, nofun⟩
      · cases hset
  | setNone hwritable =>
      rw [Property.setTo_eq]
      exact ⟨_, rfl, _, hsetter hwritable, rfl, rfl, nofun⟩
  | onChange p listenerName | offChange p id =>
      exact ⟨_, rfl, _, List.mem_cons_of_mem _ List.mem_cons_self, rfl, rfl, nofun⟩
  | call hcall =>
      obtain ⟨written, -, rfl⟩ := Option.map_eq_some_iff.mp hcall
      exact ⟨_, rfl, _, List.mem_cons_self, rfl, rfl, fun _ => rfl⟩
  | subscribe e listenerName | unsubscribe e id | provide c handlerName label script | revoke c =>
      exact ⟨_, rfl, _, List.mem_cons_self, rfl, rfl, nofun⟩

/-- A member has one entry at most for each use of a name. -/
theorem eq_of_kind {e' : Entry} (he : e ∈ d.entries) (he' : e' ∈ d.entries)
    (hkind : e'.kind = e.kind) : e' = e := by
  cases d with
  | property p =>
      rcases Property.mem_entries.mp he with rfl | rfl | ⟨-, rfl⟩ <;>
        rcases Property.mem_entries.mp he' with rfl | rfl | ⟨-, rfl⟩ <;>
        first | rfl | cases hkind
  | method m => rw [List.mem_singleton.mp he, List.mem_singleton.mp he']
  | event _ => rw [List.mem_singleton.mp he, List.mem_singleton.mp he']
  | capability c => rw [List.mem_singleton.mp he, List.mem_singleton.mp he']

/-- An operation of the use that an entry is for hands over a request when the link is up. -/
theorem exists_does (he : e ∈ d.entries) (settings : Settings) :
    ∃ activity, d.Does e.kind activity ∧ ∃ since,
      (((ofSettings settings (.direct .up)).move (.begin activity)).run since).takes 0
        (.advance 0) ≠ [] := by
  have hsent : ∀ {frame : Json} {frames : List Json}, frames = [frame] → frames ≠ [] := by
    rintro frame _ rfl
    exact List.cons_ne_nil _ _
  cases d with
  | property p =>
      rcases Property.mem_entries.mp he with rfl | rfl | ⟨hwritable, rfl⟩
      · exact ⟨_, .get p, _, hsent (takes_of_call settings _ rfl)⟩
      · exact ⟨_, .onChange p "", _, hsent (takes_of_change settings rfl)⟩
      · obtain ⟨value, written, hvalue⟩ := p.payload.exists_normalize
        have hset : p.set? value = some (p.setTo (some written)) := by
          rw [Property.set?, if_pos hwritable, hvalue, Option.map_some]
        exact ⟨_, .set hset, _, hsent (takes_of_call settings _ rfl)⟩
  | method m =>
      cases List.mem_singleton.mp he
      obtain ⟨params, written, hparams⟩ := m.params.exists_normalize
      have hcall : m.call? params =
          some (.call ⟨m.wireName, some written, m.timeout⟩ (.payload m.result)) := by
        rw [Method.call?, hparams, Option.map_some]
      exact ⟨_, .call hcall, _, hsent (takes_of_call settings _ rfl)⟩
  | event e =>
      cases List.mem_singleton.mp he
      exact ⟨_, .subscribe e "", _, hsent (takes_of_change settings rfl)⟩
  | capability c =>
      cases List.mem_singleton.mp he
      exact ⟨_, .provide c "" "" ⟨none, .echo⟩, _, hsent (takes_of_change settings rfl)⟩

theorem names_of_takes (h : d.Does use activity) (settings : Settings) (link : Link)
    (before since : List Move) (m : Move) :
    let c := (ofSettings settings link).run before
    let now := (c.move (.begin activity)).run since
    ∀ frame ∈ now.takes c.nextJob m,
      ∃ e ∈ d.entries, e.kind = use ∧ Names settings now c.nextJob m frame e := by
  intro c now frame hframe
  have hnumbered : c.Numbered := (numbered_ofSettings settings link).run before
  have hserved : c.Served :=
    (Served.ofSettings settings link).run (numbered_ofSettings settings link) before
  obtain ⟨call, hcall, e, he, huse, hname, htimeout⟩ := h.exists_entry c
  have hmakes : now.Makes c.nextJob call :=
    (Makes.ofBegin hnumbered hserved hcall).run (hnumbered.move _) since
  obtain ⟨id, slot, rfl, hwaits⟩ := hmakes.request_of_takes hframe
  refine ⟨e, he, huse, ?_, fun hmethod => ⟨call, id, slot, rfl, htimeout hmethod, ?_⟩⟩
  · rw [method_requestFrame, hname]
  · have hsame : now.timeoutOf call = (ofSettings settings link).timeoutOf call := by
      rw [timeoutOf_run (hnumbered.move _) since, timeoutOf_move hnumbered,
        timeoutOf_run (numbered_ofSettings settings link) before]
    rw [hwaits, hsame, timeoutOf, htimeout hmethod]
    rfl

/-- Every entry is the name of a request that an operation for its use hands over. -/
theorem exists_names (he : e ∈ d.entries) (settings : Settings) :
    ∃ activity, d.Does e.kind activity ∧ ∃ since m,
      let now := ((ofSettings settings (.direct .up)).move (.begin activity)).run since
      ∃ frame ∈ now.takes 0 m, Names settings now 0 m frame e := by
  obtain ⟨activity, hdoes, since, hsent⟩ := exists_does he settings
  obtain ⟨frame, hframe⟩ := List.exists_mem_of_ne_nil _ hsent
  obtain ⟨e', he', hkind, hnames⟩ :=
    names_of_takes hdoes settings (.direct .up) [] since (.advance 0) frame hframe
  cases eq_of_kind he he' hkind
  exact ⟨activity, hdoes, since, .advance 0, frame, hframe, hnames⟩

/-- The catalog lists the names that a member's operations put on the wire, and no others. -/
theorem entries_listed (d : Member) : d.Listed where
  names := fun settings link before use activity h since m =>
    names_of_takes h settings link before since m
  used := fun _ he settings => exists_names he settings
  setter := by
    constructor
    · rintro ⟨e, he, hkind⟩
      cases d with
      | property p =>
          rcases Property.mem_entries.mp he with rfl | rfl | ⟨hwritable, -⟩
          · cases hkind
          · cases hkind
          · exact ⟨p, rfl, hwritable⟩
      | method m => cases List.mem_singleton.mp he; cases hkind
      | event e => cases List.mem_singleton.mp he; cases hkind
      | capability c => cases List.mem_singleton.mp he; cases hkind
    · rintro ⟨p, rfl, hwritable⟩
      exact ⟨_, Property.mem_entries.mpr (.inr (.inr ⟨hwritable, rfl⟩)), rfl⟩

end Member

namespace Catalog

/-- A wire name is supported exactly if an operation of some member can put it on the wire. -/
theorem isSupported_iff {name : String} : isSupported name = true ↔
    ∃ d ∈ members, ∃ use activity, d.Does use activity ∧ ∃ settings since m,
      ∃ frame ∈ (((Client.ofSettings settings (.direct .up)).move (.begin activity)).run
        since).takes 0 m, frame.get? "method" = some (.string name) := by
  rw [isSupported, lookup?, List.find?_isSome]
  constructor
  · rintro ⟨e, he, hname⟩
    obtain ⟨d, hd, he⟩ := List.mem_flatMap.mp he
    obtain ⟨activity, hdoes, since, m, frame, hframe, hnames⟩ := Member.exists_names he {}
    refine ⟨d, hd, _, activity, hdoes, {}, since, m, frame, hframe, ?_⟩
    rw [hnames.method, eq_of_beq hname]
  · rintro ⟨d, hd, use, activity, hdoes, settings, since, m, frame, hframe, hmethod⟩
    obtain ⟨e, he, -, hnames⟩ :=
      Member.names_of_takes hdoes settings (.direct .up) [] since m frame hframe
    refine ⟨e, List.mem_flatMap.mpr ⟨d, hd, he⟩, ?_⟩
    cases hnames.method.symm.trans hmethod
    exact beq_self_eq_true _

end Catalog

end GatewayClient
