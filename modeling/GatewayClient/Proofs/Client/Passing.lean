/-
The way of a change through its gate and into its call.  A change in its call has gone through its
gate at some move, and has been in the call since; and no other change of the event and kind is in
its call meanwhile.
-/
import GatewayClient.Proofs.Client.Settling
import Mathlib.Data.List.Induction

namespace GatewayClient

namespace Client

variable {c : Client} {i j : JobId} {m : Move} {change change' : Change} {stage stage' : CallStage}
  {event : String} {listeners : Bool} {phase : VisitPhase} {moves : List Move}

/-- The work behind a visit. -/
theorem work_of_visits (hvisit : c.visits listeners i = some (event, phase)) :
    ∃ change stage, c.workAt i = some (.change change stage) ∧ change.ofListeners = listeners ∧
      change.event = event ∧ stage.phase? = some phase := by
  obtain ⟨work, hwork, hvisit⟩ := Option.bind_eq_some_iff.mp hvisit
  cases work with
  | call call stage => cases hvisit
  | change change stage =>
      rw [Work.visit?] at hvisit
      split at hvisit
      · next hlisteners =>
          obtain ⟨phase', hphase, heq⟩ := Option.map_eq_some_iff.mp hvisit
          cases heq
          exact ⟨change, stage, hwork, hlisteners, rfl, hphase⟩
      · cases hvisit

/-- A change that goes through its gate is done at once, or begins its call. -/
theorem workAt_of_passes (hpasses : c.passes? (.advance i) = some change) :
    (c.move (.advance i)).workAt i = some (.change change (c.enterChange change).2) := by
  obtain ⟨j, hm, hwork, howns⟩ := passes?_eq_some hpasses
  cases hm
  obtain ⟨job, hmove, hwork'⟩ := move_of_owns hwork howns
  have hget : (c.move (.advance i)).jobs.get? i = some job := by
    rw [hmove]
    exact Dictionary.get?_put_self _ _ _
  refine workAt_of_work? hget hwork' ?_
  rcases c.enterChange_stage change with hstage | ⟨changed, hstage⟩ <;> rw [hstage] <;> rfl

/-- A change that has gone through its gate and is in its call begins it. -/
theorem calling_of_passes (hpasses : c.passes? (.advance i) = some change)
    (hwork : (c.move (.advance i)).workAt i = some (.change change' (.calling stage))) :
    change' = change ∧ stage = .fresh ∧ (c.enterChange change).2 = .calling .fresh := by
  rw [workAt_of_passes hpasses] at hwork
  rcases c.enterChange_stage change with hstage | ⟨changed, hstage⟩ <;> rw [hstage] at hwork ⊢ <;>
    cases hwork
  exact ⟨rfl, rfl, rfl⟩

/-- A change in its call has gone through its gate at some move, and has been in the call since. -/
theorem exists_passing (hnumbered : c.Numbered) (hnone : ∀ i, c.workAt i = none)
    (hwork : (c.run moves).workAt i = some (.change change (.calling stage))) :
    ∃ before since, moves = before ++ .advance i :: since ∧
      (c.run before).passes? (.advance i) = some change ∧
      ((c.run before).enterChange change).2 = .calling .fresh ∧
      ∀ mid, mid <+: since → ∃ stage, (c.run (before ++ .advance i :: mid)).workAt i =
        some (.change change (.calling stage)) := by
  induction moves using List.reverseRecOn generalizing stage with
  | nil =>
      rw [run_nil, hnone] at hwork
      cases hwork
  | append_singleton moves m ih =>
      have hafter := hwork
      rw [run_concat] at hafter
      rcases calling_of_move (hnumbered.run moves) m hafter with
        ⟨-, stage', hbefore⟩ | ⟨rfl, hgate, howns, hcalling, -⟩
      · obtain ⟨before, since, rfl, hpasses, hcalls, hsince⟩ := ih hbefore
        refine ⟨before, since ++ [m], by simp, hpasses, hcalls, fun mid hmid => ?_⟩
        rcases List.prefix_concat_iff.mp hmid with rfl | hmid
        · exact ⟨stage, by simpa using hwork⟩
        · exact hsince mid hmid
      · refine ⟨moves, [], rfl, passes?_of_owns hgate howns, hcalling, fun mid hmid => ?_⟩
        rw [List.prefix_nil.mp hmid]
        exact ⟨stage, hwork⟩

/-- Two calls about one event, of changes of one kind, are by one job. -/
theorem GatesOrderly.eq_of_calling_same (h : c.GatesOrderly)
    (hi : c.workAt i = some (.change change (.calling stage)))
    (hj : c.workAt j = some (.change change' (.calling stage')))
    (hkind : change.ofListeners = change'.ofListeners) (hevent : change.event = change'.event) :
    i = j := by
  have hvisit := visits_of_workAt hi
  have hvisit' := visits_of_workAt hj
  rw [hkind, hevent] at hvisit
  exact (h change'.ofListeners).eq_of_owns hvisit hvisit'
    ((h change'.ofListeners).owns_of_inside hvisit)
    ((h change'.ofListeners).owns_of_inside hvisit')

end Client

end GatewayClient
