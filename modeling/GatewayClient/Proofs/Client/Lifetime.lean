/-
The life of a change.  A job that is for one change goes through the stages of the change in their
order and once, whatever other jobs do meanwhile, and is gone for good when it ends.
-/
import GatewayClient.Proofs.Client.Move

namespace GatewayClient

namespace ChangeStage

/-- How far a stage is on the way of a change. -/
def rank : ChangeStage → Nat
  | .fresh => 0
  | .referring => 1
  | .atGate => 2
  | .calling _ => 3
  | .releasing _ => 4
  | .pruning _ => 5

end ChangeStage

namespace Client

variable {c c₁ c' : Client} {i : JobId} {job job' : Job} {change change' : Change}
  {stage stage' : ChangeStage}

theorem ChangeStep.rank_le (h : ChangeStep c i change stage c' stage') :
    stage.rank ≤ stage'.rank := by
  cases h with
  | enter howns =>
      rcases c.enterChange_stage change with hstage | ⟨changed, hstage⟩
      · rw [hstage]
        decide
      · exact hstage ▸ Nat.le_add_right 2 2
  | call hmoved => exact Nat.le_refl _
  | refer | join => decide
  | settle | fail | release => exact Nat.le_succ _

theorem eq_change_of_change? (hchange : job.change? = some change) :
    ∃ stage, job = .change change stage := by
  cases job with
  | change change' stage =>
      cases hchange
      exact ⟨stage, rfl⟩
  | call | provideAll | withdraw | answer | handle | sweep | receive => cases hchange

theorem begun?_change (change : Change) (stage : ChangeStage) :
    (Job.change change stage).begun? =
      if stage = .fresh then none else some (.change change stage) := by
  cases stage <;> rfl

theorem stage_eq_of_begun?
    (hbegun : (Job.change change stage').begun? = (Job.change change stage).begun?) :
    stage' = stage := by
  rw [begun?_change, begun?_change] at hbegun
  split at hbegun <;> split at hbegun
  · next hfresh' hfresh => rw [hfresh', hfresh]
  · cases hbegun
  · cases hbegun
  · cases hbegun
    rfl

/-- A job that is given up is gone. -/
theorem get?_dropJob (c : Client) (i : JobId) : (c.dropJob i).jobs.get? i = none := by
  rw [dropJob]
  cases hget : c.jobs.get? i with
  | none => exact hget
  | some job => exact Dictionary.get?_erase_self _ _

/-- A job whose change is over is gone. -/
theorem get?_move_of_over (hget : c.jobs.get? i = some (.change change stage))
    {result : Except Failure Changed} (hover : c.stepChange i change stage = .over c₁ result) :
    (c.move (.advance i)).jobs.get? i = none := by
  have hmove : c.move (.advance i) = c₁.finishChange i change result := by
    rw [move, stepJob?, hget]
    simp only [hover, Option.getD_some]
  rw [hmove]
  exact Dictionary.get?_erase_self _ _

/-- A job that is gone does not come back. -/
theorem Inherits.gone (h : Inherits c c') (hi : i < c.nextJob) (hgone : c.jobs.get? i = none) :
    c'.jobs.get? i = none := by
  apply Option.eq_none_iff_forall_ne_some.mpr
  intro job' hget'
  rcases h.jobs i job' hget' with ⟨job, hget, -⟩ | ⟨hle, -⟩
  · rw [hgone] at hget
    cases hget
  · exact Nat.not_lt_of_le hle hi

/-- A job is for the same change as long as it is there. -/
theorem Inherits.change?_eq (h : Inherits c c') (hnumbered : c.Numbered)
    (hget : c.jobs.get? i = some job) (hget' : c'.jobs.get? i = some job') :
    job'.change? = job.change? := by
  rcases h.jobs i job' hget' with ⟨job₁, hget₁, hsame⟩ | ⟨hle, -⟩
  · rw [hget] at hget₁
    cases hget₁
    exact hsame
  · exact absurd (hnumbered i job hget) (Nat.not_lt_of_le hle)

/-- A job that is for a change stays for it. -/
theorem Inherits.eq_change (h : Inherits c c') (hnumbered : c.Numbered)
    (hget : c.jobs.get? i = some (.change change stage)) (hget' : c'.jobs.get? i = some job') :
    ∃ stage', job' = .change change stage' :=
  eq_change_of_change? (h.change?_eq hnumbered hget hget')

theorem inherits_run (hnumbered : c.Numbered) (moves : List Move) : Inherits c (c.run moves) := by
  induction moves generalizing c with
  | nil => exact .of_jobs rfl rfl
  | cons m rest ih => exact (inherits_move hnumbered m).trans (ih (hnumbered.move m))

/-- The work of a job stays as it is until the job makes a step or is given up. -/
theorem workAt_move_of_others (hnumbered : c.Numbered) {m : Move} (hadvance : m ≠ .advance i)
    (hdrop : m ≠ .drop i) : (c.move m).workAt i = c.workAt i := by
  cases moveCase hnumbered m with
  | quiet hreply hquiet => exact hquiet.work hnumbered i
  | reply hreply hquiet => exact hquiet.work hnumbered i
  | sweep hm hjob hquiet => exact hquiet.work hnumbered i
  | turn hm hjob hwork hturn hleaves =>
      rw [hleaves.work, if_neg]
      rintro rfl
      exact hadvance hm
  | drop hm hjob hwork hleaves =>
      rw [hleaves.work, if_neg]
      rintro rfl
      exact hdrop hm

/-- A move leaves a change at its stage, or it is the step that the change makes. -/
theorem stage_of_move (hnumbered : c.Numbered) (m : Move)
    (hget : c.jobs.get? i = some (.change change stage))
    (hget' : (c.move m).jobs.get? i = some (.change change stage')) :
    stage' = stage ∨ m = .advance i ∧ ∃ c₁, ChangeStep c i change stage c₁ stage' := by
  have hwork' : (c.move m).workAt i = (Job.change change stage').begun? := workAt_of_get? hget'
  have hsame : (c.move m).workAt i = c.workAt i → stage' = stage := by
    intro hwork
    rw [hwork', workAt_of_get? hget] at hwork
    exact stage_eq_of_begun? hwork
  cases moveCase hnumbered m with
  | quiet hreply hquiet => exact Or.inl (hsame (hquiet.work hnumbered i))
  | reply hreply hquiet => exact Or.inl (hsame (hquiet.work hnumbered i))
  | sweep hm hjob hquiet => exact Or.inl (hsame (hquiet.work hnumbered i))
  | @turn j job work work' c₁ hm hjob hwork hturn hleaves =>
      have hafter := hleaves.work i
      by_cases hj : i = j
      · subst hj
        rw [hget] at hjob
        cases hjob
        cases hwork
        rw [if_pos rfl, hwork'] at hafter
        cases hturn with
        | @change _ _ stage'' _ hmoved =>
            have hstep := stepChange_moved hmoved
            rw [begun?_change] at hafter
            split at hafter <;> cases hafter
            exact Or.inr ⟨hm, c₁, hstep⟩
        | changeOver hover =>
            rw [hm, get?_move_of_over hget hover] at hget'
            cases hget'
      · rw [if_neg hj] at hafter
        exact Or.inl (hsame hafter)
  | @drop j job work hm hjob hwork hleaves =>
      by_cases hj : i = j
      · subst hj
        rw [hm, move, get?_dropJob] at hget'
        cases hget'
      · exact Or.inl (hsame ((hleaves.work i).trans (if_neg hj)))

/-- A change does not go back to an earlier stage. -/
theorem rank_le_run (hnumbered : c.Numbered) (moves : List Move)
    (hget : c.jobs.get? i = some (.change change stage))
    (hget' : (c.run moves).jobs.get? i = some (.change change stage')) :
    stage.rank ≤ stage'.rank := by
  induction moves generalizing c stage with
  | nil =>
      rw [run_nil, hget] at hget'
      cases hget'
      exact Nat.le_refl _
  | cons m rest ih =>
      have hnext := hnumbered.move m
      cases hget₁ : (c.move m).jobs.get? i with
      | none =>
          have hi := Nat.lt_of_lt_of_le (hnumbered i _ hget) (inherits_move hnumbered m).nextJob
          rw [run_cons, (inherits_run hnext rest).gone hi hget₁] at hget'
          cases hget'
      | some job₁ =>
          obtain ⟨stage₁, rfl⟩ := (inherits_move hnumbered m).eq_change hnumbered hget hget₁
          have hrest := ih hnext hget₁ hget'
          rcases stage_of_move hnumbered m hget hget₁ with rfl | ⟨-, c₁, hstep⟩
          · exact hrest
          · exact Nat.le_trans hstep.rank_le hrest

end Client

end GatewayClient
