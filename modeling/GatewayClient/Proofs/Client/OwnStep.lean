/-
What a job makes of the call that it is in: the job's own step is the call's, and what others do
leaves the call where it is.
-/
import GatewayClient.Proofs.Client.Settling
import GatewayClient.Proofs.Client.Transition

namespace GatewayClient

namespace Client

variable {c c₁ : Client} {i : JobId} {m : Move} {call call' : Call} {stage stage' : CallStage}

/-- A job that is in a call takes nothing in and sweeps nothing. -/
theorem work?_ne_none_of_callAt (hcall : c.callAt i ≠ none) {job : Job}
    (hjob : c.jobs.get? i = some job) : job.work? ≠ none := by
  intro hwork
  rw [callAt, workAt_of_get? hjob, Job.begun?, hwork] at hcall
  exact hcall rfl

/-- A job does the work of a call of an application only if it is for that call. -/
theorem get?_of_call (hwork : c.workAt i = some (.call call stage)) :
    ∃ expected, c.jobs.get? i = some (.call call expected stage) := by
  obtain ⟨job, hget, hbegun⟩ := Option.bind_eq_some_iff.mp hwork
  have hwork? := (Option.filter_eq_some_iff.mp hbegun).1
  rw [hget]
  cases job with
  | call call' expected stage' =>
      cases hwork?
      exact ⟨expected, rfl⟩
  | provideAll todo => cases todo <;> cases hwork?
  | withdraw reason todo => cases todo <;> cases hwork?
  | change | answer | handle | sweep | receive => cases hwork?

/-- A call that can go on makes its step when its job is advanced. -/
theorem callAt_of_moved (hcall : c.callAt i = some (call, stage))
    (hmoved : c.stepCall i call stage = .moved c₁ stage') :
    (c.move (.advance i)).callAt i = some (call, stage') := by
  obtain ⟨table, sent, hstep, link, ready, rfl⟩ := stepCall_moved hmoved
  rcases workAt_of_callAt hcall with hwork | ⟨change, hwork, rfl⟩
  · obtain ⟨expected, hget⟩ := get?_of_call hwork
    have hafter : (c.move (.advance i)).jobs.get? i = some (.call call expected stage') := by
      simp only [move, stepJob?, hget, hmoved, Option.getD_some]
      exact Dictionary.get?_put_self _ _ _
    rw [callAt_of_work? hafter rfl]
    exact callOf?_call _ hstep.ne_fresh
  · have hstepped : c.stepChange i change (.calling stage) =
        .moved { c with table := table, link := link, sent := sent, ready := ready }
          (.calling stage') := by
      rw [stepChange, hmoved]
    obtain ⟨job, hmove, hwork'⟩ := move_of_moved hwork hstepped
    have hafter : (c.move (.advance i)).jobs.get? i = some job := by
      rw [hmove]
      exact Dictionary.get?_put_self _ _ _
    rw [callAt_of_work? hafter hwork', callOf?_calling _ hstep.ne_fresh, hmove]
    rfl

/-- A call that is under way before and after a move has been left to others by it, has stood still
with the table, or has made its step. -/
theorem turn_of_move (hnumbered : c.Numbered) (hbefore : c.callAt i = some (call, stage))
    (hafter : (c.move m).callAt i = some (call', stage')) :
    call' = call ∧ ((stage' = stage ∧ m ≠ .advance i ∧ m ≠ .drop i) ∨
      (stage' = stage ∧ (c.move m).table = c.table) ∨
      m = .advance i ∧ ∃ table sent, CallStep c call stage table sent stage' ∧
        (c.move m).table = table ∧ (c.move m).sent = sent) := by
  have hwork : ∀ {job}, c.jobs.get? i = some job → job.work? ≠ none :=
    work?_ne_none_of_callAt (by rw [hbefore]; exact Option.some_ne_none _)
  have hsame : (c.move m).callAt i = c.callAt i → call' = call ∧ stage' = stage := by
    intro heq
    rw [heq, hbefore] at hafter
    cases hafter
    exact ⟨rfl, rfl⟩
  cases callCase hnumbered m with
  | quiet hreply h =>
      obtain ⟨hcall, hstage⟩ := hsame (h.calls i)
      exact ⟨hcall, .inr (.inl ⟨hstage, h.table⟩)⟩
  | reply hreply h =>
      obtain ⟨hcall, hstage⟩ := hsame (h.calls i)
      refine ⟨hcall, .inl ⟨hstage, ?_, ?_⟩⟩
      · rintro rfl
        rw [replyIn?_advance (fun hget => hwork hget rfl)] at hreply
        cases hreply
      · rintro rfl
        cases hreply
  | sweep hm hreply hjob h =>
      obtain ⟨hcall, hstage⟩ := hsame (h.calls i)
      subst hm
      refine ⟨hcall, .inl ⟨hstage, ?_, nofun⟩⟩
      rintro ⟨⟩
      exact hwork hjob rfl
  | @step j call₁ stage₁ stage₂ table sent hm hreply hcall hstep hsent h =>
      by_cases hj : i = j
      · subst hj
        rw [h.own] at hafter
        cases hafter
        rcases hcall with ⟨-, hnone⟩ | hcall
        · rw [hbefore] at hnone
          cases hnone
        · rw [hbefore] at hcall
          cases hcall
          exact ⟨rfl, .inr (.inr ⟨hm, table, sent, hstep, h.table, hsent⟩)⟩
      · obtain ⟨hcall', hstage⟩ := hsame (h.others i hj)
        subst hm
        refine ⟨hcall', .inl ⟨hstage, ?_, nofun⟩⟩
        rintro ⟨⟩
        exact hj rfl
  | @leave j call₁ stage₁ id' slot' hm hreply hcall hentry hsent h =>
      by_cases hj : i = j
      · subst hj
        rw [h.own] at hafter
        cases hafter
      · obtain ⟨hcall', hstage⟩ := hsame (h.others i hj)
        refine ⟨hcall', .inl ⟨hstage, ?_, ?_⟩⟩
        · rintro rfl
          rcases hm with ⟨hm, -⟩ | hm <;> cases hm
          exact hj rfl
        · rintro rfl
          rcases hm with ⟨hm, -⟩ | hm <;> cases hm
          exact hj rfl

theorem settings_move (hnumbered : c.Numbered) (m : Move) : (c.move m).settings = c.settings := by
  cases callCase hnumbered m with
  | quiet _ h | reply _ h | sweep _ _ _ h | step _ _ _ _ _ h | leave _ _ _ _ _ h =>
      exact h.settings

/-- A call stays where it is until it makes a step or is given up. -/
theorem callAt_run_of_others (hnumbered : c.Numbered) {moves : List Move}
    (hadvance : .advance i ∉ moves) (hdrop : .drop i ∉ moves) :
    (c.run moves).callAt i = c.callAt i := by
  induction moves generalizing c with
  | nil => rfl
  | cons m rest ih =>
      rw [List.mem_cons, not_or] at hadvance hdrop
      rw [run_cons, ih (hnumbered.move m) hadvance.2 hdrop.2, callAt,
        workAt_move_of_others hnumbered (Ne.symm hadvance.1) (Ne.symm hdrop.1),
        callOf?_congr (settings_move hnumbered m), callAt]

end Client

end GatewayClient
