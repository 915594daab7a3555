/-
What a move of a client can do to the calls and changes that are under way.  It gives one reply to
the table, ends one call that a sweep has found, advances or drops the work of one job, or is quiet.
-/
import GatewayClient.Proofs.Client.Change
import GatewayClient.Proofs.Client.Deed

namespace GatewayClient

namespace Client

/-- The text of a frame that a move takes in. -/
def arrival? (c : Client) : Move → Option String
  | .deliver text _ => some text
  | .advance i => if c.jobs.get? i = some .receive then c.inbox.frames.head? else none
  | _ => none

/-- The reply that a text spells. -/
def replyOf? (text : String) : Option Response :=
  match Inbound.parse text with
  | .ok (.response r) => some r
  | _ => none

/-- The reply that a move takes in. -/
def replyIn? (c : Client) (m : Move) : Option Response :=
  (c.arrival? m).bind replyOf?

/-- The notice that a text spells. -/
def noticeOf? (text : String) : Option EventNotice :=
  match Inbound.parse text with
  | .ok (.event notice) => some notice
  | _ => none

/-- The notice that a move brings. -/
def notice? (c : Client) : Move → Option EventNotice
  | .dispatch event value => some ⟨event, value⟩
  | m => (c.arrival? m).bind noticeOf?

/-- The call of the platform that a text spells. -/
def providerCallOf? (text : String) : Option ProviderCall :=
  match Inbound.parse text with
  | .ok (.providerCall call) => some call
  | _ => none

/-- The call of the platform that a move brings to where it can be answered. -/
def providerCall? (c : Client) : Move → Option ProviderCall
  | .deliver _ false => none
  | m => (c.arrival? m).bind providerCallOf?

/-- The client by the time that it looks at what a move brings: a frame that was in the inbox has
been taken out. -/
def taking (c : Client) : Move → Client
  | .advance _ => { c with inbox := { c.inbox with frames := c.inbox.frames.tail } }
  | _ => c

/-- Whether calls of the platform are answered where a move brings a frame. -/
def answers : Move → Bool
  | .deliver _ answering => answering
  | _ => true

section arrivals

variable {c : Client} {m : Move}

/-- A frame is delivered with the move that brings it. -/
theorem move_of_arrival {text : String} (harrival : c.arrival? m = some text) :
    c.move m = ((c.taking m).deliver text (answers m)).1 := by
  cases m with
  | deliver text' answering =>
      cases harrival
      rfl
  | advance i =>
      rw [arrival?] at harrival
      split at harrival
      · next hget =>
          cases hframes : c.inbox.frames with
          | nil => simp [hframes] at harrival
          | cons text' rest =>
              rw [hframes] at harrival
              cases harrival
              simp [move, stepJob?, hget, stepReceive?, hframes, taking, answers]
      · cases harrival
  | _ => cases harrival

theorem parse_of_replyOf? {text : String} {r : Response} (hreply : replyOf? text = some r) :
    Inbound.parse text = .ok (.response r) := by
  rw [replyOf?] at hreply
  split at hreply
  · next hparse =>
      cases hreply
      exact hparse
  · cases hreply

/-- A reply that comes in is given to the call that waits for it at once. -/
theorem move_of_reply {r : Response} (hreply : c.replyIn? m = some r) :
    c.move m = ((c.taking m).deliverResponse r).1 := by
  obtain ⟨text, harrival, htext⟩ := Option.bind_eq_some_iff.mp hreply
  rw [move_of_arrival harrival, deliver, parse_of_replyOf? htext]
  rfl

/-- A notice that comes in is handed to the listeners of its event at once. -/
theorem move_of_notice {notice : EventNotice} (hnotice : c.notice? m = some notice) :
    c.move m = ((c.taking m).dispatch notice.event notice.value).1 := by
  have harrives : (c.arrival? m).bind noticeOf? = some notice →
      c.move m = ((c.taking m).dispatch notice.event notice.value).1 := by
    intro h
    obtain ⟨text, harrival, htext⟩ := Option.bind_eq_some_iff.mp h
    rw [noticeOf?] at htext
    split at htext
    · next hparse =>
        cases htext
        rw [move_of_arrival harrival, deliver, hparse]
        rfl
    · cases htext
  cases m with
  | dispatch event value =>
      cases hnotice
      rfl
  | _ => exact harrives hnotice

/-- A call of the platform that can be answered has its answer started at once, by the handler that
is provided then. -/
theorem move_of_providerCall {call : ProviderCall} (hcall : c.providerCall? m = some call) :
    c.move m = (c.taking m).startAnswer call := by
  have harrives : answers m = true → (c.arrival? m).bind providerCallOf? = some call →
      c.move m = (c.taking m).startAnswer call := by
    intro hanswers h
    obtain ⟨text, harrival, htext⟩ := Option.bind_eq_some_iff.mp h
    rw [providerCallOf?] at htext
    split at htext
    · next hparse =>
        cases htext
        rw [move_of_arrival harrival, deliver, hparse, hanswers]
        rfl
    · cases htext
  cases m with
  | deliver text answering =>
      cases answering with
      | true => exact harrives rfl hcall
      | false => cases hcall
  | _ => exact harrives rfl hcall

end arrivals

/-- The replies that the moves of a run take in, in order. -/
def replies (c : Client) : List Move → List Response
  | [] => []
  | m :: rest => (c.replyIn? m).toList ++ replies (c.move m) rest

theorem replies_append (c : Client) (first second : List Move) :
    c.replies (first ++ second) = c.replies first ++ (c.run first).replies second := by
  induction first generalizing c with
  | nil => rfl
  | cons m rest ih =>
      rw [List.cons_append, replies, replies, ih, List.append_assoc]
      rfl

@[simp] theorem run_nil (c : Client) : c.run [] = c := rfl

@[simp] theorem run_cons (c : Client) (m : Move) (rest : List Move) :
    c.run (m :: rest) = (c.move m).run rest := rfl

theorem run_append (c : Client) (first second : List Move) :
    c.run (first ++ second) = (c.run first).run second :=
  List.foldl_append

theorem run_concat (c : Client) (moves : List Move) (m : Move) :
    c.run (moves ++ [m]) = (c.run moves).move m :=
  c.run_append moves [m]

/-- Every move of a run is of a kind, in the state in which it is made. -/
def Throughout (c : Client) (p : Client → Move → Prop) : List Move → Prop
  | [] => True
  | m :: rest => p c m ∧ (c.move m).Throughout p rest

theorem Throughout.split {c : Client} {p : Client → Move → Prop} {before after : List Move}
    {m : Move} (h : c.Throughout p (before ++ m :: after)) : p (c.run before) m := by
  induction before generalizing c with
  | nil => exact h.1
  | cons m' rest ih => exact ih h.2

theorem Throughout.append_iff {c : Client} {p : Client → Move → Prop} {before after : List Move} :
    c.Throughout p (before ++ after) ↔
      c.Throughout p before ∧ (c.run before).Throughout p after := by
  induction before generalizing c with
  | nil => exact ⟨fun h => ⟨trivial, h⟩, And.right⟩
  | cons m rest ih =>
      rw [List.cons_append, Throughout, Throughout, run_cons, ih, and_assoc]

theorem Throughout.of_split {c : Client} {p : Client → Move → Prop} {moves : List Move}
    (h : ∀ before m after, moves = before ++ m :: after → p (c.run before) m) :
    c.Throughout p moves := by
  induction moves generalizing c with
  | nil => exact trivial
  | cons m rest ih =>
      refine ⟨h [] m rest rfl, ih fun before m' after heq => ?_⟩
      exact h (m :: before) m' after (by rw [heq, List.cons_append])

instance Throughout.decidable (p : Client → Move → Prop) [∀ c m, Decidable (p c m)] (c : Client) :
    ∀ moves, Decidable (c.Throughout p moves)
  | [] => isTrue trivial
  | m :: rest =>
    have := Throughout.decidable p (c.move m) rest
    inferInstanceAs (Decidable (p c m ∧ (c.move m).Throughout p rest))

namespace Quiet

/-- What a client does for what comes in is quiet. -/
theorem perform (c : Client) (d : Deed) : Quiet c (c.perform d) := by
  cases d with
  | note n => exact aside c _ _ _ _ _ _ _ _
  | errand change target =>
      exact (start c (.change change .fresh) rfl).trans (aside _ _ _ _ _ _ _ _ _)
  | change | answer => exact start c _ rfl

theorem performAll (c : Client) (deeds : List Deed) : Quiet c (c.performAll deeds) :=
  performAll_induction refl trans perform c deeds

theorem dispatch (c : Client) (event : String) (value : Json) :
    Quiet c (c.dispatch event value).1 := by
  rw [Client.dispatch, runListeners_eq_performAll]
  exact performAll c _

theorem finishHandling (c : Client) {i : JobId} (answer : JobId) (outcome : Outcome)
    (hwork : c.workAt i = none) : Quiet c (c.finishHandling i answer outcome) := by
  rcases c.finishHandling_cases i answer outcome with heq | ⟨id, method, hget, heq⟩
  · rw [heq]
    exact removeJob hwork
  · rw [heq]
    exact ((removeJob hwork).trans (setJob _ _ hget (by rfl) (by rfl))).trans (wake _ answer)

theorem release (c : Client) (name : String) : Quiet c (c.release name) := by
  rw [Client.release]
  split
  · exact aside c _ _ _ _ _ _ _ _
  · next job rest _ =>
      refine trans ?_ (wake _ job)
      exact aside c _ _ _ _ _ _ _ _

end Quiet

theorem quiet_stepAnswer {c c' : Client} {i : JobId} {id : Json} {method : String}
    {stage : AnswerStage} (hnumbered : c.Numbered)
    (hget : c.jobs.get? i = some (.answer id method stage))
    (hstep : c.stepAnswer? i id method stage = some c') : Quiet c c' := by
  have hwork : c.workAt i = none := workAt_of_get? hget
  cases stage with
  | fresh handler params =>
      cases handler with
      | none =>
          cases hstep
          exact .setJob _ _ hget rfl rfl
      | some handler =>
          cases hstep
          apply (Quiet.start c (.handle i handler method (.fresh params)) rfl).trans
          refine .setJob (.answer id method (.fresh (some handler) params)) _ ?_ rfl rfl
          rw [jobs_start, Dictionary.get?_put, if_neg (Nat.ne_of_gt (hnumbered i _ hget)), hget]
  | running => cases hstep
  | ready outcome =>
      have hquiet := Quiet.offer c i (Response.ofOutcome id outcome)
      obtain ⟨link, heq⟩ := c.offer_eq i (Response.ofOutcome id outcome).toJson
      have hjobs : (c.offer i (Response.ofOutcome id outcome).toJson).1.jobs = c.jobs := by rw [heq]
      rw [stepAnswer?] at hstep
      split at hstep
      · next client hoffer =>
          cases hstep
          rw [hoffer] at hquiet hjobs
          exact hquiet.trans (.setJob (.answer id method (.ready outcome)) _ (hjobs ▸ hget) rfl rfl)
      · next client step _ hoffer =>
          cases hstep
          rw [hoffer] at hquiet hjobs
          exact hquiet.trans (.removeJob ((workAt_congr (by rw [hjobs])).trans hwork))
  | crowded outcome =>
      have hquiet := Quiet.offerAgain c i (Response.ofOutcome id outcome)
      obtain ⟨link, heq⟩ := c.offerAgain_eq i (Response.ofOutcome id outcome).toJson
      have hjobs : (c.offerAgain i (Response.ofOutcome id outcome).toJson).1.jobs = c.jobs := by
        rw [heq]
      rw [stepAnswer?] at hstep
      split at hstep
      · cases hstep
      · next client step _ hoffer =>
          cases hstep
          rw [hoffer] at hquiet hjobs
          exact hquiet.trans (.removeJob ((workAt_congr (by rw [hjobs])).trans hwork))

theorem quiet_stepHandle {c c' : Client} {i answer : JobId} {handler : Handler} {method : String}
    {stage : HandlingStage} (hget : c.jobs.get? i = some (.handle answer handler method stage))
    (hstep : c.stepHandle? i answer handler method stage = some c') : Quiet c c' := by
  rcases stepHandle_cases hstep with ⟨outcome, rfl⟩ | ⟨signals, notes, stage', rfl⟩
  · exact .finishHandling c answer _ (workAt_of_get? hget)
  · exact (Quiet.aside c _ _ _ _ _ _ _ _).trans (.setJob _ _ hget rfl rfl)

/-- A frame that comes in is given to the table if it is a reply, and otherwise its deeds are
done. -/
theorem deliver_cases (c : Client) (text : String) (answering : Bool) :
    (∃ r ready, replyOf? text = some r ∧
        (c.deliver text answering).1 = { c with table := c.tableAfter r, ready := ready }) ∨
      replyOf? text = none ∧
        (c.deliver text answering).1 = c.performAll (c.deeds text answering) := by
  cases hr : replyOf? text with
  | some r =>
      obtain ⟨ready, heq⟩ := c.deliverResponse_eq r
      refine .inl ⟨r, ready, rfl, ?_⟩
      rw [deliver, parse_of_replyOf? hr]
      exact heq
  | none =>
      refine .inr ⟨rfl, deliver_eq (fun r hparse => ?_) answering⟩
      rw [replyOf?, hparse] at hr
      cases hr

/-- What a job comes to with its work: the work as it is after one step, if there is any left. -/
inductive Turn (c : Client) (i : JobId) : Work → Client → Option Work → Prop where
  | call {call : Call} {stage stage' : CallStage} {c' : Client}
    (hmoved : c.stepCall i call stage = .moved c' stage') :
    Turn c i (.call call stage) c' (some (.call call stage'))
  | callOver {call : Call} {stage : CallStage} {outcome : Outcome} {c' : Client}
    (hover : c.stepCall i call stage = .over c' outcome) : Turn c i (.call call stage) c' none
  | change {change : Change} {stage stage' : ChangeStage} {c' : Client}
    (hmoved : c.stepChange i change stage = .moved c' stage') :
    Turn c i (.change change stage) c' (some (.change change stage'))
  | changeOver {change : Change} {stage : ChangeStage} {result : Except Failure Changed}
    {c' : Client} (hover : c.stepChange i change stage = .over c' result) :
    Turn c i (.change change stage) c' none

theorem Turn.acts {c c' : Client} {i : JobId} {work : Work} {work' : Option Work}
    (h : Turn c i work c' work') : c.Acts c' := by
  cases h with
  | call hmoved => exact .stepCall hmoved
  | callOver hover => exact .stepCall_over hover
  | change hmoved => exact (stepChange_moved hmoved).acts
  | changeOver hover =>
      rw [(stepChange_over hover).2]
      exact .ofRearranges (.setGatesOf c _ _)

/-- The client after the work of a job has been given up where it stands. -/
def dropWork (c : Client) (i : JobId) : Work → Client
  | .call _ stage => c.dropCall i stage
  | .change change stage => c.dropChange i change stage

theorem Acts.dropWork (c : Client) (i : JobId) (work : Work) : c.Acts (c.dropWork i work) := by
  cases work with
  | call call stage => exact .dropCall c i stage
  | change change stage => exact .dropChange c i change stage

/-- `c'` is `c₁`, and the work of the job `i` has become `work`. -/
structure Leaves (c c₁ c' : Client) (i : JobId) (work : Option Work) : Prop where
  keeps : Keeps c₁ c'
  sent : c'.sent = c₁.sent
  work : ∀ j, c'.workAt j = if j = i then work else c.workAt j

/-- What a move can do to the calls and changes under way: nothing, or it gives one reply to the
table, ends a call that a sweep has found and that has expired, or makes one step of the work of a
job or gives it up. -/
inductive MoveCase (c : Client) (m : Move) (c' : Client) : Prop where
  | quiet (hreply : c.replyIn? m = none) (h : Quiet c c')
  | reply {r : Response} (hreply : c.replyIn? m = some r)
    (h : Quiet { c with table := c.tableAfter r } c')
  | sweep {i : JobId} {next startedAt : Nat} {id : UInt64} {rest : List UInt64}
    (hm : m = .advance i)
    (hjob : c.jobs.get? i = some (.sweep next (.removing startedAt (id :: rest))))
    (h : Quiet { c with table := (c.table.removeIfExpired startedAt id).1 } c')
  | turn {i : JobId} {job : Job} {work : Work} {work' : Option Work} {c₁ : Client}
    (hm : m = .advance i) (hjob : c.jobs.get? i = some job) (hwork : job.work? = some work)
    (hturn : Turn c i work c₁ work') (h : Leaves c c₁ c' i work')
  | drop {i : JobId} {job : Job} {work : Work}
    (hm : m = .drop i) (hjob : c.jobs.get? i = some job) (hwork : job.work? = some work)
    (h : Leaves c (c.dropWork i work) c' i none)

theorem replyIn?_advance {c : Client} {i : JobId} (hjob : c.jobs.get? i ≠ some .receive) :
    c.replyIn? (.advance i) = none := by
  rw [replyIn?, arrival?, if_neg hjob, Option.bind_none]

namespace MoveCase

theorem of_advance {c c' : Client} {i : JobId} {job : Job} (hjob : c.jobs.get? i = some job)
    (hreceive : job ≠ .receive) (h : Quiet c c') : MoveCase c (.advance i) c' :=
  .quiet (replyIn?_advance fun heq => hreceive (Option.some.inj (hjob.symm.trans heq))) h

end MoveCase

namespace Leaves

variable {c c₁ c' : Client} {i : JobId} {work : Option Work}

/-- Work whose job is set to another stage. -/
theorem setJob {old job : Job} (hacts : c.Acts c₁) (hget : c.jobs.get? i = some old)
    (hsame : job.change? = old.change?) (hwork : job.begun? = work) :
    Leaves c c₁ (c₁.setJob i job) i work where
  keeps := .setJob (hacts.jobs ▸ hget) hsame
  sent := rfl
  work := by
    intro j
    rw [workAt_setJob, hwork, hacts.workAt]

theorem finish (hacts : c.Acts c₁) (outcome : Outcome) :
    Leaves c c₁ (c₁.finish i outcome) i none where
  keeps := .finish c₁ i outcome
  sent := rfl
  work := by
    intro j
    rw [workAt_finish, hacts.workAt]

theorem finishChange (hacts : c.Acts c₁) (change : Change) (result : Except Failure Changed) :
    Leaves c c₁ (c₁.finishChange i change result) i none := by
  unfold Client.finishChange
  dsimp only
  split
  · refine ⟨(Keeps.aside c₁ _ _ _ _ _ _ _ _).trans (.finish _ i _), rfl,
      fun j => ?_⟩
    rw [workAt_finish]
    split
    · rfl
    · exact hacts.workAt j
  · exact finish hacts _

theorem removeJob (hacts : c.Acts c₁) : Leaves c c₁ (c₁.removeJob i) i none where
  keeps := .removeJob c₁ i
  sent := rfl
  work := by
    intro j
    rw [workAt_removeJob, hacts.workAt]

end Leaves

theorem begun?_of_work? {job : Job} {work : Work} (hwork : job.work? = some work)
    (hbegun : work.isBegun = true) : job.begun? = some work := by
  rw [Job.begun?, hwork, Option.filter_some_pos hbegun]

/-- The work after a turn has begun. -/
theorem Turn.isBegun {c c' : Client} {i : JobId} {work work' : Work}
    (h : Turn c i work c' (some work')) : work'.isBegun = true := by
  cases h with
  | @call _ _ stage' _ hmoved =>
      obtain ⟨table, sent, hstep, -⟩ := stepCall_moved hmoved
      have hfresh := hstep.ne_fresh
      cases stage' <;> first | rfl | exact absurd rfl hfresh
  | @change _ _ stage' _ hmoved =>
      have hfresh := (stepChange_moved hmoved).ne_fresh
      cases stage' <;> first | rfl | exact absurd rfl hfresh

theorem moveCase_stepProvideAll {c c' : Client} {i : JobId} {todo : List (String × Handler)}
    {made : List String} {stage : ChangeStage}
    (hget : c.jobs.get? i = some (.provideAll todo made stage))
    (hstep : c.stepProvideAll? i todo made stage = some c') : MoveCase c (.advance i) c' := by
  cases todo with
  | nil =>
      cases hstep
      refine .of_advance hget Job.noConfusion ?_
      exact (Quiet.removeJob (workAt_of_get? hget)).trans (.aside _ _ _ _ _ _ _ _ _)
  | cons head rest =>
      obtain ⟨event, handler⟩ := head
      rw [stepProvideAll?] at hstep
      split at hstep
      · cases hstep
      · next client stage' hmoved =>
          cases hstep
          have hturn : Turn c i (.change (.provide event handler) stage) client _ := .change hmoved
          refine .turn rfl hget rfl hturn (.setJob hturn.acts hget rfl ?_)
          exact begun?_of_work? rfl hturn.isBegun
      · next client hover =>
          cases hstep
          refine .turn rfl hget rfl (.changeOver hover)
            (.setJob (Turn.changeOver hover).acts hget rfl ?_)
          cases rest <;> rfl
      · next client changed _ hover =>
          cases hstep
          refine .turn rfl hget rfl (.changeOver hover)
            (.setJob (Turn.changeOver hover).acts hget rfl ?_)
          cases rest <;> rfl
      · next client f hover =>
          cases hstep
          refine .turn rfl hget rfl (.changeOver hover)
            (.setJob (Turn.changeOver hover).acts hget rfl ?_)
          cases made <;> rfl

theorem moveCase_stepWithdraw {c c' : Client} {i : JobId} {reason : Failure} {todo : List String}
    {stage : ChangeStage} (hget : c.jobs.get? i = some (.withdraw reason todo stage))
    (hstep : c.stepWithdraw? i reason todo stage = some c') : MoveCase c (.advance i) c' := by
  cases todo with
  | nil =>
      cases hstep
      refine .of_advance hget Job.noConfusion ?_
      exact (Quiet.removeJob (workAt_of_get? hget)).trans (.aside _ _ _ _ _ _ _ _ _)
  | cons event rest =>
      rw [stepWithdraw?] at hstep
      split at hstep
      · cases hstep
      · next client stage' hmoved =>
          cases hstep
          have hturn : Turn c i (.change (.revoke event) stage) client _ := .change hmoved
          refine .turn rfl hget rfl hturn (.setJob hturn.acts hget rfl ?_)
          exact begun?_of_work? rfl hturn.isBegun
      · next client _ hover =>
          cases hstep
          refine .turn rfl hget rfl (.changeOver hover)
            (.setJob (Turn.changeOver hover).acts hget rfl ?_)
          cases rest <;> rfl

theorem moveCase_stepSweep {c c' : Client} {i : JobId} {next : Nat} {stage : SweepStage}
    (hget : c.jobs.get? i = some (.sweep next stage))
    (hstep : c.stepSweep? i next stage = some c') : MoveCase c (.advance i) c' := by
  cases stage with
  | resting =>
      rw [stepSweep?] at hstep
      split at hstep
      · cases hstep
      · cases hstep
        exact .of_advance hget Job.noConfusion (.setJob _ _ hget rfl rfl)
  | removing startedAt ids =>
      cases ids with
      | nil =>
          cases hstep
          exact .of_advance hget Job.noConfusion (.setJob _ _ hget rfl rfl)
      | cons id rest =>
          cases hstep
          refine .sweep rfl hget ((Quiet.wakeOption _ _).trans
            (.setJob (.sweep next (.removing startedAt (id :: rest))) _ ?_ rfl rfl))
          obtain ⟨ready, heq⟩ :=
            { c with table := (c.table.removeIfExpired startedAt id).1 }.wakeOption_eq
              ((c.table.pending.get? id).bind fun call => c.listenerOf call.slot)
          rw [heq]
          exact hget

theorem moveCase_stepReceive {c c' : Client} {i : JobId} (hget : c.jobs.get? i = some .receive)
    (hstep : c.stepReceive? i = some c') : MoveCase c (.advance i) c' := by
  have hreply : c.replyIn? (.advance i) = c.inbox.frames.head?.bind replyOf? := by
    rw [replyIn?, arrival?, if_pos hget]
  rw [stepReceive?] at hstep
  cases hframes : c.inbox.frames with
  | nil =>
      rw [hframes] at hstep hreply
      by_cases hopen : c.inbox.isOpen = true
      · simp only [hopen, ↓reduceIte] at hstep
        cases hstep
      · simp only [hopen, Bool.false_eq_true, ↓reduceIte] at hstep
        cases hstep
        exact .quiet hreply (.removeJob (workAt_of_get? hget))
  | cons text rest =>
      rw [hframes] at hstep hreply
      cases hstep
      rw [List.head?_cons, Option.bind_some] at hreply
      rcases deliver_cases { c with inbox := { c.inbox with frames := rest } } text true with
        ⟨r, ready, hr, heq⟩ | ⟨hr, heq⟩
      · rw [heq]
        exact .reply (hreply.trans hr) (.aside { c with table := c.tableAfter r } _ _ _ _ _ _ _ _)
      · rw [heq]
        exact .quiet (hreply.trans hr)
          ((Quiet.aside c _ _ _ _ _ _ _ _).trans (.performAll _ _))

/-- A step of a job that can go on. -/
theorem moveCase_stepJob {c c' : Client} {i : JobId} (hnumbered : c.Numbered)
    (hstep : c.stepJob? i = some c') : MoveCase c (.advance i) c' := by
  rw [stepJob?] at hstep
  cases hget : c.jobs.get? i with
  | none =>
      rw [hget] at hstep
      cases hstep
  | some job =>
      rw [hget] at hstep
      cases job with
      | call call expected stage =>
          simp only at hstep
          split at hstep
          · cases hstep
          · next client stage' hmoved =>
              cases hstep
              have hturn : Turn c i (.call call stage) client _ := .call hmoved
              refine .turn rfl hget rfl hturn (.setJob hturn.acts hget rfl ?_)
              exact begun?_of_work? rfl hturn.isBegun
          · next client outcome hover =>
              cases hstep
              have hturn : Turn c i (.call call stage) client none := .callOver hover
              exact .turn rfl hget rfl hturn (.finish hturn.acts _)
      | change change stage =>
          simp only at hstep
          split at hstep
          · cases hstep
          · next client stage' hmoved =>
              cases hstep
              have hturn : Turn c i (.change change stage) client _ := .change hmoved
              refine .turn rfl hget rfl hturn (.setJob hturn.acts hget rfl ?_)
              exact begun?_of_work? rfl hturn.isBegun
          · next client result hover =>
              cases hstep
              have hturn : Turn c i (.change change stage) client none := .changeOver hover
              exact .turn rfl hget rfl hturn (.finishChange hturn.acts change result)
      | provideAll todo made stage => exact moveCase_stepProvideAll hget hstep
      | withdraw reason todo stage => exact moveCase_stepWithdraw hget hstep
      | answer id method stage =>
          exact .of_advance hget Job.noConfusion (quiet_stepAnswer hnumbered hget hstep)
      | handle answer handler method stage =>
          exact .of_advance hget Job.noConfusion (quiet_stepHandle hget hstep)
      | sweep next stage => exact moveCase_stepSweep hget hstep
      | receive => exact moveCase_stepReceive hget hstep

/-- A job that is given up. -/
theorem moveCase_dropJob (c : Client) (i : JobId) : MoveCase c (.drop i) (c.dropJob i) := by
  rw [dropJob]
  cases hget : c.jobs.get? i with
  | none => exact .quiet rfl (.refl c)
  | some job =>
      have hleaves : ∀ work,
          Leaves c (c.dropWork i work) ((c.dropWork i work).removeJob i) i none :=
        fun work => .removeJob (.dropWork c i work)
      have hnone : job.work? = none → Quiet c (c.removeJob i) := by
        intro hwork
        exact .removeJob (by rw [workAt_of_get? hget, Job.begun?, hwork]; rfl)
      cases job with
      | call call expected stage => exact .drop rfl hget rfl (hleaves (.call call stage))
      | change change stage => exact .drop rfl hget rfl (hleaves (.change change stage))
      | provideAll todo made stage =>
          cases todo with
          | nil => exact .quiet rfl (hnone rfl)
          | cons head rest => exact .drop rfl hget rfl (hleaves (.change (.provide _ _) stage))
      | withdraw reason todo stage =>
          cases todo with
          | nil => exact .quiet rfl (hnone rfl)
          | cons event rest => exact .drop rfl hget rfl (hleaves (.change (.revoke event) stage))
      | answer id method stage =>
          cases stage with
          | crowded outcome =>
              refine .quiet rfl ((Quiet.withdrawOffer c i).trans (.removeJob ?_))
              obtain ⟨link, ready, heq⟩ := c.withdrawOffer_eq i
              rw [heq]
              exact workAt_of_get? hget
          | fresh handler params => exact .quiet rfl (hnone rfl)
          | running => exact .quiet rfl (hnone rfl)
          | ready outcome => exact .quiet rfl (hnone rfl)
      | handle answer handler method stage => exact .quiet rfl (hnone rfl)
      | sweep next stage => exact .quiet rfl (hnone rfl)
      | receive => exact .quiet rfl (hnone rfl)

/-- A job that cannot go on takes nothing in. -/
theorem replyIn?_of_stuck {c : Client} {i : JobId} (hstuck : c.stepJob? i = none) :
    c.replyIn? (.advance i) = none := by
  by_cases hget : c.jobs.get? i = some .receive
  · rw [stepJob?, hget] at hstuck
    rw [replyIn?, arrival?, if_pos hget]
    cases hframes : c.inbox.frames with
    | nil => rfl
    | cons text rest =>
        simp only [stepReceive?, hframes] at hstuck
        cases hstuck
  · exact replyIn?_advance hget

/-- A job that is no more is not advanced. -/
theorem move_of_gone {c : Client} {i : JobId} (hgone : c.jobs.get? i = none) :
    c.move (.advance i) = c.pause i := by
  rw [move, stepJob?, hgone, Option.getD_none]

/-- What a move can be. -/
theorem moveCase {c : Client} (hnumbered : c.Numbered) (m : Move) : MoveCase c m (c.move m) := by
  cases m with
  | advance i =>
      rw [move]
      cases hstep : c.stepJob? i with
      | some c' => exact moveCase_stepJob hnumbered hstep
      | none => exact .quiet (replyIn?_of_stuck hstep) (.aside c _ _ _ _ _ _ _ _)
  | begin activity =>
      refine .quiet rfl (.start c activity.toJob ?_)
      cases activity with
      | call call expected => rfl
      | change change => rfl
      | provideAll handlers => cases handlers <;> rfl
  | startSweeper => exact .quiet rfl (.start c _ rfl)
  | startReceiver => exact .quiet rfl (.start c _ rfl)
  | drop i => exact moveCase_dropJob c i
  | deliver text answering =>
      rcases deliver_cases c text answering with ⟨r, ready, hr, heq⟩ | ⟨hr, heq⟩
      · rw [move, heq]
        exact .reply hr (.aside { c with table := c.tableAfter r } _ _ _ _ _ _ _ _)
      · rw [move, heq]
        exact .quiet hr (.performAll _ _)
  | dispatch event value => exact .quiet rfl (.dispatch c event value)
  | arrive text =>
      exact .quiet rfl ((Quiet.aside c _ _ _ _ _ _ _ _).trans (.wakeAll _ _))
  | closeInbox =>
      exact .quiet rfl ((Quiet.aside c _ _ _ _ _ _ _ _).trans (.wakeAll _ _))
  | takeFrame =>
      rw [move, takeFrame]
      split
      · exact .quiet rfl (.refl c)
      · exact .quiet rfl ((Quiet.aside c _ _ _ _ _ _ _ _).trans (.wakeOption _ _))
  | closeChannel =>
      rw [move, closeChannel]
      split
      · exact .quiet rfl (.refl c)
      · exact .quiet rfl ((Quiet.aside c _ _ _ _ _ _ _ _).trans (.wakeAll _ _))
  | setLink state =>
      rw [move, setLink]
      split
      · exact .quiet rfl (.aside c _ _ _ _ _ _ _ _)
      · exact .quiet rfl (.refl c)
  | release name => exact .quiet rfl (.release c name)
  | skip ms =>
      have hlater : Later c { c with now := c.now + ms } := by
        constructor <;> dsimp only <;> omega
      exact .quiet rfl ((Quiet.passing c hlater).trans (.wakeAll _ _))
  | elapse ms =>
      have hlater : Later c { c with now := c.now + ms, clock := c.clock + ms } := by
        constructor <;> dsimp only <;> omega
      exact .quiet rfl ((Quiet.passing c hlater).trans (.wakeAll _ _))

/-- A move keeps the jobs that are there and may start new ones. -/
theorem inherits_move {c : Client} (hnumbered : c.Numbered) (m : Move) :
    Inherits c (c.move m) := by
  have hacts : ∀ c₁, c.Acts c₁ → Inherits c c₁ := fun c₁ h => .of_jobs h.nextJob h.jobs
  have htable : ∀ table, Inherits c { c with table := table } := fun _ => .of_jobs rfl rfl
  cases moveCase hnumbered m with
  | quiet hreply hquiet => exact hquiet.inherits
  | reply hreply hquiet => exact (htable _).trans hquiet.inherits
  | sweep hm hjob hquiet => exact (htable _).trans hquiet.inherits
  | turn hm hjob hwork hturn hleaves => exact (hacts _ hturn.acts).trans hleaves.keeps.inherits
  | drop hm hjob hwork hleaves =>
      exact (hacts _ (.dropWork c _ _)).trans hleaves.keeps.inherits

theorem Numbered.move {c : Client} (h : c.Numbered) (m : Move) : (c.move m).Numbered :=
  (inherits_move h m).numbered h

theorem Numbered.run {c : Client} (h : c.Numbered) (moves : List Move) :
    (c.run moves).Numbered := by
  induction moves generalizing c with
  | nil => exact h
  | cons m rest ih => exact ih (h.move m)

theorem numbered_ofSettings (settings : Settings) (link : Link) :
    (ofSettings settings link).Numbered := by
  intro i job hget
  cases hget

end Client

end GatewayClient
