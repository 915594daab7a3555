/-
What a subscription leaves that comes to nothing, because the platform or the link refuses it, its
time runs out, or it is given up wherever it stands: no listener, no place at a gate, and an event
about which the platform is asked again by whoever comes next.
-/
import GatewayClient.Proofs.Client.NothingLeft
import GatewayClient.Proofs.Client.ProviderLifecycle
import GatewayClient.Proofs.Client.Roster
import GatewayClient.Proofs.Client.Series
import GatewayClient.Proofs.Gate.Exclusion

namespace GatewayClient

namespace Client

variable {c : Client} {i j : JobId} {m : Move} {event : String} {listener : Listener}
  {change : Change} {stage stage' : ChangeStage} {before moves : List Move}

/-- A subscription that comes to nothing has not come to success before, and its job is no more. -/
theorem Fails.gone (h : c.Fails i m) (hget : c.jobs.get? i = some (.change change stage)) :
    c.settledAt i = none ∧ (c.move m).jobs.get? i = none := by
  rcases h with ⟨rfl, hunsettled⟩ | ⟨failure, rfl, hreturns⟩
  · exact ⟨hunsettled, get?_dropJob c i⟩
  · obtain ⟨result, rfl, hfailure⟩ := hreturns.stage hget
    cases result with
    | ok changed => cases hfailure
    | error failure => exact ⟨settledAt_of_work? hget rfl, get?_move_of_over hget rfl⟩

/-- From when it comes to nothing on, the job is no more. -/
theorem Fails.gone_run (hnumbered : c.Numbered) (h : c.Fails i m)
    (hget : c.jobs.get? i = some (.change change stage)) (since : List Move) :
    (c.run (m :: since)).jobs.get? i = none := by
  have hi := Nat.lt_of_lt_of_le (hnumbered i _ hget) (inherits_move hnumbered m).nextJob
  exact (inherits_run (hnumbered.move m) since).gone hi (h.gone hget).2

/-- A state of a run in which it comes to nothing is after that, or on the way there. -/
theorem Fails.gone_or_before (hnumbered : c.Numbered) (h : (c.run before).Fails i m)
    (hget : (c.run before).jobs.get? i = some (.change change stage))
    {first second since : List Move} (heq : before ++ m :: since = first ++ second) :
    (c.run first).jobs.get? i = none ∨ ∃ later, before = first ++ later := by
  rcases List.append_eq_append_iff.mp heq with ⟨mid, rfl, hmid⟩ | ⟨later, hbefore, -⟩
  · cases mid with
    | nil => exact .inr ⟨[], by simp⟩
    | cons m' mid =>
        obtain ⟨rfl, -⟩ := List.cons_eq_cons.mp hmid
        rw [run_append]
        exact .inl (h.gone_run (hnumbered.run before) hget mid)
  · exact .inr ⟨later, hbefore⟩

/-- In such a run the job is for its change as long as it is there. -/
theorem Fails.get? (hnumbered : c.Numbered) (h : (c.run before).Fails i m)
    (hget : (c.run before).jobs.get? i = some (.change change stage))
    {first second since : List Move} (heq : before ++ m :: since = first ++ second) :
    (c.run first).jobs.get? i = none ∨
      ∃ stage, (c.run first).jobs.get? i = some (.change change stage) := by
  rcases h.gone_or_before hnumbered hget heq with hgone | ⟨later, rfl⟩
  · exact .inl hgone
  · rw [run_append] at hget
    cases hjob : (c.run first).jobs.get? i with
    | none => exact .inl rfl
    | some job =>
        obtain ⟨stage', rfl⟩ := eq_change_of_later (hnumbered.run first) hjob hget
        exact .inr ⟨stage', rfl⟩

/-- How far a change is with the request of its call, after moves since it has begun the call: it
has made no step, has an id, has found no room on the link, has handed the request over, or has been
refused by a link that takes none. -/
inductive Asks (c : Client) (j : JobId) (change : Change) (moves : List Move) : Prop
  | begun (hwork : (c.run moves).workAt j = some (.change change (.calling .fresh)))
    (hsteps : moves.count (.advance j) = 0)
  | entered {id : UInt64} {slot : Nat}
    (hwork : (c.run moves).workAt j = some (.change change (.calling (.entered id slot))))
    (hsteps : moves.count (.advance j) = 1)
  | crowded {id : UInt64} {slot : Nat} {stage : CallStage} {first second : List Move}
    (hwork : (c.run moves).workAt j = some (.change change (.calling (.crowded id slot))))
    (hmoves : moves = first ++ .advance j :: second) (hlast : .advance j ∉ second)
    (hfull : (c.run first).sending? j ((c.run first).changeCall change) stage = some .waits)
  | handed {id : UInt64} {first second : List Move}
    (hmoves : moves = first ++ .advance j :: second)
    (hhands : (c.run first).HandsOver (.advance j) j ((c.run first).changeCall change) id)
  | refused {first second : List Move} (hmoves : moves = first ++ .advance j :: second)
    (hbrings : (c.run first).brings? j (.advance j) = some (change, false))
    (hdown : (c.run first).link.isUp = false)

/-- A change that has to bring its request does so with its next step, and goes on by what the link
does with it. -/
theorem workAt_of_unsent {stage : CallStage} {id : UInt64}
    (hget : c.jobs.get? j = some (.change change (.calling stage)))
    (hunsent : stage.unsent? = some id) :
    ∃ slot step, c.sending? j (c.changeCall change) stage = some step ∧
      (c.move (.advance j)).workAt j =
        some (.change change (.calling (c.afterOffer (c.changeCall change) id slot step))) := by
  have hwork : c.workAt j = some (.change change (.calling stage)) := workAt_of_get? hget
  have hmoved : ∀ {c₁ stage'}, c.stepCall j (c.changeCall change) stage = .moved c₁ stage' →
      (c.move (.advance j)).workAt j = some (.change change (.calling stage')) := by
    intro c₁ stage' hstep
    have hchange : c.stepChange j change (.calling stage) = .moved c₁ (.calling stage') := by
      rw [stepChange, hstep]
    obtain ⟨job, hmove, hwork'⟩ := move_of_moved hwork hchange
    refine workAt_of_work? ?_ hwork' rfl
    rw [hmove]
    exact Dictionary.get?_put_self _ _ _
  cases stage with
  | entered id slot =>
      cases hunsent
      exact ⟨slot, _, rfl, hmoved rfl⟩
  | crowded id slot =>
      cases hunsent
      refine ⟨slot, _, rfl, ?_⟩
      cases hoffer : c.offerAgain j (requestFrame (c.changeCall change) id) with
      | mk sender step =>
          cases step with
          | sent | failed => exact hmoved (by rw [stepCall, hoffer]; rfl)
          | waits =>
              have hstuck : c.move (.advance j) = c.pause j := by
                simp [move, stepJob?, hget, stepChange, stepCall, hoffer]
              rw [hstuck]
              exact hwork
  | fresh | waiting | overdue | «over» => cases hunsent

theorem isUp_of_sending {call : Call} {stage : CallStage}
    (hsending : c.sending? j call stage = some .failed) : c.link.isUp = false := by
  cases stage with
  | entered id slot => exact isUp_of_offer (Option.some.inj hsending)
  | crowded id slot => exact isUp_of_offerAgain (Option.some.inj hsending)
  | fresh | waiting | overdue | «over» => cases hsending

namespace Asks

/-- A move that has been made in a run has been made in a longer one. -/
theorem append_of_split {m : Move} {first second : List Move}
    (hmoves : moves = first ++ m :: second) (m' : Move) :
    moves ++ [m'] = first ++ m :: (second ++ [m']) := by
  rw [hmoves, List.append_assoc, List.cons_append]

/-- It goes on to bring its request. -/
theorem bring (hnumbered : c.Numbered) {stage : CallStage} {id : UInt64}
    (hget : (c.run moves).jobs.get? j = some (.change change (.calling stage)))
    (hunsent : stage.unsent? = some id) : c.Asks j change (moves ++ [.advance j]) := by
  obtain ⟨slot, step, hsending, hafter⟩ := workAt_of_unsent hget hunsent
  have hwork : (c.run moves).workAt j = some (.change change (.calling stage)) :=
    workAt_of_get? hget
  have hbrings : ∀ {taken}, stage.brings? ((c.run moves).afterOffer
      ((c.run moves).changeCall change) id slot step) = some taken →
      (c.run moves).brings? j (.advance j) = some (change, taken) := by
    intro taken hstages
    rw [brings?, if_pos rfl, hafter, hwork]
    exact congrArg (Option.map _) hstages
  cases step with
  | sent =>
      obtain ⟨id', hhands⟩ := handsOver_of_brings (hnumbered.run moves)
        (hbrings (by simp [CallStage.brings?, hunsent, afterOffer]))
      exact .handed rfl hhands
  | failed =>
      exact .refused rfl (hbrings (by simp [CallStage.brings?, hunsent, afterOffer]))
        (isUp_of_sending hsending)
  | waits =>
      rw [← run_concat] at hafter
      exact .crowded hafter rfl List.not_mem_nil hsending

/-- The step of another changes nothing of it. -/
theorem others (hnumbered : c.Numbered) (h : c.Asks j change moves) (hadvance : m ≠ .advance j)
    (hdrop : m ≠ .drop j) : c.Asks j change (moves ++ [m]) := by
  have hsame : (c.run (moves ++ [m])).workAt j = (c.run moves).workAt j := by
    rw [run_concat, workAt_move_of_others (hnumbered.run moves) hadvance hdrop]
  have hcount : (moves ++ [m]).count (.advance j) = moves.count (.advance j) := by
    rw [List.count_append, List.count_singleton, if_neg (by simpa using hadvance), Nat.add_zero]
  cases h with
  | begun hwork hsteps => exact .begun (hsame.trans hwork) (hcount.trans hsteps)
  | entered hwork hsteps => exact .entered (hsame.trans hwork) (hcount.trans hsteps)
  | @crowded id slot stage first second hwork hmoves hlast hfull =>
      have hlast' : Move.advance j ∉ second ++ [m] := by simpa [hlast] using hadvance.symm
      exact .crowded (hsame.trans hwork) (append_of_split hmoves m) hlast' hfull
  | handed hmoves hhands => exact .handed (append_of_split hmoves m) hhands
  | refused hmoves hbrings hdown => exact .refused (append_of_split hmoves m) hbrings hdown

/-- Its own step brings it on. -/
theorem own (hnumbered : c.Numbered) (hlisteners : change.ofListeners = true)
    (h : c.Asks j change moves) : c.Asks j change (moves ++ [.advance j]) := by
  cases h with
  | begun hwork hsteps =>
      obtain ⟨job, hmove, hwork'⟩ := move_of_moved hwork rfl
      refine .entered (workAt_of_work? ?_ hwork' rfl) (by rw [List.count_append, hsteps]; simp)
      rw [run_concat, hmove]
      exact Dictionary.get?_put_self _ _ _
  | entered hwork => exact bring hnumbered (get?_of_workAt hlisteners hwork) rfl
  | crowded hwork => exact bring hnumbered (get?_of_workAt hlisteners hwork) rfl
  | handed hmoves hhands => exact .handed (append_of_split hmoves _) hhands
  | refused hmoves hbrings hdown => exact .refused (append_of_split hmoves _) hbrings hdown

/-- A change that begins its call and is not given up has handed its request over when it has made
two steps, unless the link has no room or takes none. -/
theorem run (hnumbered : c.Numbered) (hlisteners : change.ofListeners = true)
    (hwork : c.workAt j = some (.change change (.calling .fresh))) {moves : List Move}
    (hkept : .drop j ∉ moves) : c.Asks j change moves := by
  induction moves using List.reverseRecOn with
  | nil => exact .begun hwork rfl
  | append_singleton moves m ih =>
      rw [List.mem_append, List.mem_singleton, not_or] at hkept
      have hbefore := ih hkept.1
      by_cases hown : m = .advance j
      · subst hown
        exact hbefore.own hnumbered hlisteners
      · exact hbefore.others hnumbered hown (Ne.symm hkept.2)

/-- A subscription that goes through its gate when the event has no listeners asks the platform. -/
theorem of_passes (hnumbered : c.Numbered) (hsubscribed : c.isSubscribed event = false)
    (hpasses : c.passes? (.advance j) = some (.subscribe event listener)) {moves : List Move}
    (hkept : .drop j ∉ moves) :
    (c.move (.advance j)).Asks j (.subscribe event listener) moves := by
  have hwork := workAt_of_passes hpasses
  rw [enterChange, if_neg (by rw [hsubscribed]; exact Bool.false_ne_true)] at hwork
  exact run (hnumbered.move _) rfl hwork hkept

end Asks

end Client

end GatewayClient
