/-
What a move does to the calls that are under way, whether an application has made them or a change
has.  Seen from the calls, a client is its table, the frames sent, and the stage of each call that
has entered the table.
-/
import GatewayClient.Proofs.Client.Move
import Mathlib.Logic.Function.Basic

namespace GatewayClient

namespace Client

/-- The call that a piece of work is in, if the call has entered the table. -/
def callOf? (c : Client) : Work → Option (Call × CallStage)
  | .call _ .fresh | .change _ (.calling .fresh) => none
  | .call call stage => some (call, stage)
  | .change change (.calling stage) => some (c.changeCall change, stage)
  | .change _ _ => none

/-- The call that a job is in, if the call has entered the table. -/
def callAt (c : Client) (i : JobId) : Option (Call × CallStage) :=
  (c.workAt i).bind c.callOf?

theorem callOf?_call (c : Client) {call : Call} {stage : CallStage} (hstage : stage ≠ .fresh) :
    c.callOf? (.call call stage) = some (call, stage) := by
  cases stage <;> first | rfl | exact absurd rfl hstage

theorem callOf?_calling (c : Client) {change : Change} {stage : CallStage}
    (hstage : stage ≠ .fresh) :
    c.callOf? (.change change (.calling stage)) = some (c.changeCall change, stage) := by
  cases stage <;> first | rfl | exact absurd rfl hstage

theorem callOf?_congr {c c' : Client} (hsettings : c'.settings = c.settings) :
    c'.callOf? = c.callOf? := by
  funext work
  cases work with
  | call call stage => cases stage <;> rfl
  | change change stage =>
      cases stage with
      | calling stage => cases stage <;> simp [callOf?, changeCall, hsettings]
      | fresh | referring | atGate | releasing | pruning => rfl

theorem callOf?_of_not_begun (c : Client) {work : Work} (hwork : work.isBegun = false) :
    c.callOf? work = none := by
  cases work with
  | call call stage => cases stage <;> first | rfl | cases hwork
  | change change stage => cases stage <;> first | rfl | cases hwork

theorem callAt_of_work? {c : Client} {i : JobId} {job : Job} {work : Work}
    (hjob : c.jobs.get? i = some job) (hwork : job.work? = some work) :
    c.callAt i = c.callOf? work := by
  rw [callAt, workAt_of_get? hjob, Job.begun?, hwork, Option.filter_some]
  split
  · rfl
  · next hbegun => rw [c.callOf?_of_not_begun (Bool.eq_false_iff.mpr hbegun), Option.bind_none]

/-- A call that a job is in has an entry of its own. -/
theorem entryOf?_of_callAt {c : Client} {i : JobId} {call : Call} {stage : CallStage}
    (hcall : c.callAt i = some (call, stage)) : ∃ id slot, stage.entryOf? = some (id, slot) := by
  obtain ⟨work, -, hwork⟩ := Option.bind_eq_some_iff.mp hcall
  have hfresh : stage ≠ .fresh := by
    rintro rfl
    cases work with
    | call call' stage' => cases stage' <;> cases hwork
    | change change stage' =>
        cases stage' with
        | calling stage' => cases stage' <;> cases hwork
        | fresh | referring | atGate | releasing | pruning => cases hwork
  cases hentry : stage.entryOf? with
  | none => exact absurd (CallStage.entryOf?_eq_none.mp hentry) hfresh
  | some entry => exact ⟨entry.1, entry.2, rfl⟩

/-- Seen from the calls, `c'` is `c` with this table, these frames sent, and these calls; some
replies to calls of the platform may have been sent as well. -/
structure Seen (c c' : Client) (table : Table) (sent : List Json)
    (calls : JobId → Option (Call × CallStage)) : Prop where
  settings : c'.settings = c.settings
  later : Later c c'
  table : c'.table = table
  sent : ∃ replies : List Response, c'.sent = sent ++ replies.map Response.toJson
  calls : ∀ i, c'.callAt i = calls i

/-- What a move can do to the calls under way: nothing, or it gives one reply to the table, ends a
call that a sweep has found and that has expired, or makes one step of a call or has it leave its
entry, because it is over or is given up. -/
inductive CallCase (c : Client) (m : Move) (c' : Client) : Prop where
  | quiet (hreply : c.replyIn? m = none) (h : Seen c c' c.table c.sent c.callAt)
  | reply {r : Response} (hreply : c.replyIn? m = some r)
    (h : Seen c c' (c.tableAfter r) c.sent c.callAt)
  | sweep {i : JobId} {next startedAt : Nat} {id : UInt64} {rest : List UInt64}
    (hm : m = .advance i) (hreply : c.replyIn? m = none)
    (hjob : c.jobs.get? i = some (.sweep next (.removing startedAt (id :: rest))))
    (h : Seen c c' (c.table.removeIfExpired startedAt id).1 c.sent c.callAt)
  | step {i : JobId} {call : Call} {stage stage' : CallStage} {table : Table} {sent : List Json}
    (hm : m = .advance i) (hreply : c.replyIn? m = none)
    (hcall : (stage = .fresh ∧ c.callAt i = none) ∨ c.callAt i = some (call, stage))
    (hstep : CallStep c call stage table sent stage') (hsent : c'.sent = sent)
    (h : Seen c c' table sent (Function.update c.callAt i (some (call, stage'))))
  | leave {i : JobId} {call : Call} {stage : CallStage} {id : UInt64} {slot : Nat}
    (hm : (m = .advance i ∧ ∃ outcome, stage = .over id slot outcome) ∨ m = .drop i)
    (hreply : c.replyIn? m = none)
    (hcall : c.callAt i = some (call, stage)) (hentry : stage.entryOf? = some (id, slot))
    (hsent : c'.sent = c.sent)
    (h : Seen c c' (c.table.leave id slot) c.sent (Function.update c.callAt i none))

theorem Keeps.callAt {c c₁ c' : Client} (h : Keeps c₁ c') (hsettings : c₁.settings = c.settings)
    {i : JobId} (hwork : c'.workAt i = c.workAt i) : c'.callAt i = c.callAt i := by
  rw [Client.callAt, hwork, callOf?_congr (h.settings.trans hsettings), Client.callAt]

/-- A client that is quiet apart from its table. -/
theorem Quiet.seen {c c' : Client} {table : Table} (hnumbered : c.Numbered)
    (h : Quiet { c with table := table } c') : Seen c c' table c.sent c.callAt where
  settings := h.settings
  later := (Later.of_eq rfl rfl : Later c { c with table := table }).trans h.later
  table := h.table
  sent := h.sent
  calls := fun i => h.toKeeps.callAt rfl (h.work hnumbered i)

namespace Leaves

variable {c c₁ c' : Client} {i : JobId} {work : Option Work}

/-- A client in which the work of one job has changed. -/
theorem seen (h : Leaves c c₁ c' i work) (hacts : c.Acts c₁) :
    Seen c c' c₁.table c₁.sent (Function.update c.callAt i (work.bind c.callOf?)) where
  settings := h.keeps.settings.trans hacts.settings
  later := hacts.later.trans h.keeps.later
  table := h.keeps.table
  sent := ⟨[], by simp [h.sent]⟩
  calls := by
    intro j
    have hwork := h.work j
    by_cases hj : j = i
    · rw [if_pos hj] at hwork
      rw [hj, Function.update_self, callAt, ← hj, hwork,
        callOf?_congr (h.keeps.settings.trans hacts.settings)]
    · rw [if_neg hj] at hwork
      rw [Function.update_of_ne hj]
      exact h.keeps.callAt hacts.settings hwork

/-- Work that neither is in a call nor changes the table is nothing to the calls. -/
theorem quiet {m : Move} (h : Leaves c c₁ c' i work) (hrest : c.Rearranges c₁)
    (hreply : c.replyIn? m = none) (hbefore : c.callAt i = none)
    (hafter : work.bind c.callOf? = none) : CallCase c m c' := by
  have hseen := h.seen (.ofRearranges hrest)
  rw [hafter, ← hbefore, Function.update_eq_self, hrest.table, hrest.sent] at hseen
  exact .quiet hreply hseen

/-- Work whose call makes a step. -/
theorem step {m : Move} {call : Call} {stage stage' : CallStage} (h : Leaves c c₁ c' i work)
    (hm : m = .advance i) (hreply : c.replyIn? m = none)
    (hcall : (stage = .fresh ∧ c.callAt i = none) ∨ c.callAt i = some (call, stage))
    (hmoved : c.stepCall i call stage = .moved c₁ stage')
    (hafter : work.bind c.callOf? = some (call, stage')) : CallCase c m c' := by
  obtain ⟨table, sent, hstep, link, ready, rfl⟩ := stepCall_moved hmoved
  have hseen := h.seen (.ofHands ⟨link, ready, rfl⟩)
  rw [hafter] at hseen
  exact .step hm hreply hcall hstep h.sent hseen

/-- Work whose call leaves its entry. -/
theorem leave {m : Move} {call : Call} {stage : CallStage} {id : UInt64} {slot : Nat}
    (h : Leaves c c₁ c' i work) (hacts : c.Acts c₁)
    (hm : (m = .advance i ∧ ∃ outcome, stage = .over id slot outcome) ∨ m = .drop i)
    (hreply : c.replyIn? m = none) (hcall : c.callAt i = some (call, stage))
    (hentry : stage.entryOf? = some (id, slot)) (htable : c₁.table = c.table.leave id slot)
    (hsent : c₁.sent = c.sent) (hafter : work.bind c.callOf? = none) : CallCase c m c' := by
  have hseen := h.seen hacts
  rw [hafter, htable, hsent] at hseen
  exact .leave hm hreply hcall hentry (h.sent.trans hsent) hseen

end Leaves

section turn

variable {c c₁ c' : Client} {i : JobId} {job : Job}

/-- A call that has made a step was in the table, or has not begun. -/
theorem callAt_of_call {call : Call} {stage : CallStage} (hjob : c.jobs.get? i = some job)
    (hwork : job.work? = some (.call call stage)) :
    (stage = .fresh ∧ c.callAt i = none) ∨ c.callAt i = some (call, stage) := by
  rw [callAt_of_work? hjob hwork]
  by_cases hfresh : stage = .fresh
  · exact Or.inl ⟨hfresh, by rw [hfresh]; rfl⟩
  · exact Or.inr (c.callOf?_call hfresh)

theorem callAt_of_calling {change : Change} {stage : CallStage} (hjob : c.jobs.get? i = some job)
    (hwork : job.work? = some (.change change (.calling stage))) :
    (stage = .fresh ∧ c.callAt i = none) ∨ c.callAt i = some (c.changeCall change, stage) := by
  rw [callAt_of_work? hjob hwork]
  by_cases hfresh : stage = .fresh
  · exact Or.inl ⟨hfresh, by rw [hfresh]; rfl⟩
  · exact Or.inr (c.callOf?_calling hfresh)

/-- The call of a change that is over: it has its params, so it was in the table. -/
theorem calling_over {change : Change} {stage : CallStage} {outcome : Outcome}
    (hover : c.stepCall i (c.changeCall change) stage = .over c₁ outcome) :
    ∃ id slot, stage = .over id slot outcome ∧ c₁ = { c with table := c.table.leave id slot } := by
  rcases stepCall_over hover with ⟨-, hparams, -, -⟩ | hleft
  · cases hparams
  · exact hleft

/-- The stage that a change enters is no stage of a call that has begun. -/
theorem callOf?_enterChange (c : Client) (change : Change) :
    c.callOf? (.change change (c.enterChange change).2) = none := by
  rcases c.enterChange_stage change with hstage | ⟨changed, hstage⟩
  · rw [hstage]
    rfl
  · rw [hstage]
    rfl

theorem callCase_change {m : Move} {change : Change} {stage stage' : ChangeStage}
    (hm : m = .advance i) (hreply : c.replyIn? m = none) (hjob : c.jobs.get? i = some job)
    (hwork : job.work? = some (.change change stage))
    (hstep : ChangeStep c i change stage c₁ stage')
    (h : Leaves c c₁ c' i (some (.change change stage'))) : CallCase c m c' := by
  have hbefore := callAt_of_work? hjob hwork
  cases hstep with
  | refer => exact h.quiet (.setGatesOf c change _) hreply hbefore rfl
  | join => exact h.quiet (.setGatesOf c change _) hreply hbefore rfl
  | enter howns =>
      exact h.quiet (.enterChange c change) hreply hbefore (callOf?_enterChange c change)
  | call hmoved =>
      obtain ⟨table, sent, hnext, -⟩ := stepCall_moved hmoved
      exact h.step hm hreply (callAt_of_calling hjob hwork) hmoved
        (c.callOf?_calling hnext.ne_fresh)
  | settle hover =>
      obtain ⟨id, slot, rfl, rfl⟩ := calling_over hover
      have hsettle := Rearranges.settleChange { c with table := c.table.leave id slot } change
      exact h.leave ((Acts.stepCall_over hover).trans (.ofRearranges hsettle))
        (Or.inl ⟨hm, _, rfl⟩) hreply hbefore rfl hsettle.table hsettle.sent rfl
  | fail hover =>
      obtain ⟨id, slot, rfl, rfl⟩ := calling_over hover
      exact h.leave (.stepCall_over hover) (Or.inl ⟨hm, _, rfl⟩) hreply hbefore rfl rfl rfl rfl
  | release =>
      exact h.quiet ((Rearranges.setGatesOf c change _).trans (.wakeOption _ _)) hreply hbefore rfl

theorem callCase_turn {m : Move} {work : Work} {work' : Option Work} (hm : m = .advance i)
    (hreply : c.replyIn? m = none) (hjob : c.jobs.get? i = some job)
    (hwork : job.work? = some work) (hturn : Turn c i work c₁ work')
    (h : Leaves c c₁ c' i work') : CallCase c m c' := by
  cases hturn with
  | call hmoved =>
      obtain ⟨table, sent, hnext, -⟩ := stepCall_moved hmoved
      exact h.step hm hreply (callAt_of_call hjob hwork) hmoved (c.callOf?_call hnext.ne_fresh)
  | callOver hover =>
      have hbefore := callAt_of_work? hjob hwork
      rcases stepCall_over hover with ⟨rfl, -, rfl, -⟩ | ⟨id, slot, rfl, rfl⟩
      · exact h.quiet (.refl _) hreply hbefore rfl
      · exact h.leave (.stepCall_over hover) (Or.inl ⟨hm, _, rfl⟩) hreply hbefore rfl rfl rfl rfl
  | change hmoved => exact callCase_change hm hreply hjob hwork (stepChange_moved hmoved) h
  | changeOver hover =>
      obtain ⟨rfl, rfl⟩ := stepChange_over hover
      exact h.quiet (.setGatesOf c _ _) hreply (callAt_of_work? hjob hwork) rfl

/-- A call that is given up leaves its entry, if it has one. -/
theorem callCase_dropCall {m : Move} {call : Call} {stage : CallStage} (hm : m = .drop i)
    (hreply : c.replyIn? m = none)
    (hcall : (stage = .fresh ∧ c.callAt i = none) ∨ c.callAt i = some (call, stage))
    (hrest : (c.dropCall i stage).Rearranges c₁) (h : Leaves c c₁ c' i none) :
    CallCase c m c' := by
  rcases hcall with ⟨rfl, hbefore⟩ | hbefore
  · exact h.quiet hrest hreply hbefore rfl
  · obtain ⟨id, slot, hentry⟩ := entryOf?_of_callAt hbefore
    obtain ⟨link, ready, heq⟩ := dropCall_eq c i hentry
    refine h.leave ((Acts.dropCall c i stage).trans (.ofRearranges hrest)) (Or.inr hm) hreply
      hbefore hentry (hrest.table.trans ?_) (hrest.sent.trans ?_) rfl
    · rw [heq]
    · rw [heq]

theorem callCase_drop {m : Move} {work : Work} (hm : m = .drop i) (hreply : c.replyIn? m = none)
    (hjob : c.jobs.get? i = some job) (hwork : job.work? = some work)
    (h : Leaves c (c.dropWork i work) c' i none) : CallCase c m c' := by
  cases work with
  | call call stage =>
      exact callCase_dropCall hm hreply (callAt_of_call hjob hwork) (.refl _) h
  | change change stage =>
      rw [dropWork] at h
      cases stage with
      | calling stage =>
          exact callCase_dropCall hm hreply (callAt_of_calling hjob hwork) (.leaveGate _ i change) h
      | fresh => exact h.quiet (.refl c) hreply (callAt_of_work? hjob hwork) rfl
      | referring | atGate | releasing | pruning =>
          refine h.quiet ?_ hreply (callAt_of_work? hjob hwork) rfl
          apply rearranges_dropChange c i change
          exact fun _ => ChangeStage.noConfusion

end turn

/-- What a move can be to the calls under way. -/
theorem callCase {c : Client} (hnumbered : c.Numbered) (m : Move) : CallCase c m (c.move m) := by
  cases moveCase hnumbered m with
  | quiet hreply h => exact .quiet hreply (h.seen hnumbered)
  | reply hreply h => exact .reply hreply (h.seen hnumbered)
  | sweep hm hjob h =>
      subst hm
      refine .sweep rfl (replyIn?_advance ?_) hjob (h.seen hnumbered)
      rw [hjob]
      exact fun heq => Job.noConfusion (Option.some.inj heq)
  | @turn i job work work' c₁ hm hjob hwork hturn h =>
      have hreply : c.replyIn? m = none := by
        subst hm
        refine replyIn?_advance fun hreceive => ?_
        rw [hjob] at hreceive
        cases hreceive
        cases hwork
      exact callCase_turn hm hreply hjob hwork hturn h
  | drop hm hjob hwork h =>
      subst hm
      exact callCase_drop rfl rfl hjob hwork h

end Client

end GatewayClient
