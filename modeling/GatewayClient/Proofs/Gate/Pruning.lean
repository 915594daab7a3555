/-
Gates come off the file.  A gate is on file while its name is visited; when the last visitor goes,
it comes off exactly if that visitor prunes.  One that gives its ticket up instead, as a visitor
that has been let in and goes away before it knows, leaves the gate behind.
-/
import GatewayClient.Proofs.Gate.Exclusion
import Mathlib.Data.List.Induction

namespace GatewayClient

namespace Dictionary

variable {κ : Type} [DecidableEq κ]

/-- A value that one key alone has stands in the dictionary once. -/
theorem length_filter_of_only {d : Dictionary κ Nat} (hkeys : (keys d).Nodup) {key : κ}
    {value : Nat} (hget : get? d key = some value)
    (honly : ∀ other, get? d other = some value → other = key) :
    (d.filter fun entry => entry.2 == value).length = 1 := by
  have hperm : (d.filter fun entry => entry.2 == value).Perm [(key, value)] := by
    refine (List.perm_ext_iff_of_nodup ((List.Nodup.of_map _ hkeys).filter _)
      (List.nodup_singleton _)).mpr fun entry => ?_
    rw [List.mem_filter, List.mem_singleton, beq_iff_eq]
    constructor
    · rintro ⟨hmem, rfl⟩
      rw [← honly entry.1 (get?_of_mem hkeys hmem)]
    · rintro rfl
      exact ⟨mem_of_get? hget, rfl⟩
  exact hperm.length_eq

end Dictionary

namespace Gates

variable {g g' : Gates} {visits : Nat → Option (String × VisitPhase)} {t n : Nat}
  {name other : String} {phase : VisitPhase}

theorem onFile_join (g : Gates) (t : Nat) : (g.join t).onFile = g.onFile := by
  rw [join]
  split
  · dsimp only
    split <;> rfl
  · rfl

theorem tickets_join (g : Gates) (t : Nat) : (g.join t).tickets = g.tickets := by
  rw [join]
  split
  · dsimp only
    split <;> rfl
  · rfl

theorem onFile_handOn (g : Gates) (n : Nat) : (g.handOn n).1.onFile = g.onFile := by
  rw [handOn]
  cases (g.gate n).queue <;> rfl

theorem tickets_handOn (g : Gates) (n : Nat) : (g.handOn n).1.tickets = g.tickets := by
  rw [handOn]
  cases (g.gate n).queue <;> rfl

theorem onFile_release (g : Gates) (t : Nat) : (g.release t).1.onFile = g.onFile := by
  rw [release]
  split
  · exact onFile_handOn _ _
  · rfl

theorem tickets_release (g : Gates) (t : Nat) : (g.release t).1.tickets = g.tickets := by
  rw [release]
  split
  · exact tickets_handOn _ _
  · rfl

theorem onFile_giveUp (g : Gates) (t : Nat) : (g.giveUp t).1.onFile = g.onFile := by
  rw [giveUp]
  split
  · dsimp only
    split
    · exact onFile_handOn _ _
    · rfl
  · rfl

theorem get?_onFile_refer (hne : name ≠ other) (t : Nat) :
    (g.refer other t).onFile.get? name = g.onFile.get? name := by
  rw [refer, open?]
  cases g.onFile.get? other with
  | some number => rfl
  | none => exact Dictionary.get?_put_of_ne _ _ hne

theorem get?_onFile_prune (hne : name ≠ other) (t : Nat) :
    (g.prune other t).onFile.get? name = g.onFile.get? name := by
  rw [prune]
  cases g.tickets.get? t with
  | none => rfl
  | some number =>
      dsimp only
      split
      · exact Dictionary.get?_erase_of_ne _ hne
      · rfl

/-- Tickets and names are entered once. -/
structure Distinct (g : Gates) : Prop where
  tickets : (Dictionary.keys g.tickets).Nodup
  onFile : (Dictionary.keys g.onFile).Nodup

namespace Distinct

theorem congr (h : g.Distinct) (htickets : g'.tickets = g.tickets)
    (honFile : g'.onFile = g.onFile) : g'.Distinct := by
  refine ⟨?_, ?_⟩
  · rw [htickets]
    exact h.tickets
  · rw [honFile]
    exact h.onFile

theorem refer (h : g.Distinct) (name : String) (t : Nat) : (g.refer name t).Distinct := by
  rw [Gates.refer, open?]
  cases g.onFile.get? name with
  | some number => exact ⟨Dictionary.nodup_keys_put h.tickets _ _, h.onFile⟩
  | none =>
      exact ⟨Dictionary.nodup_keys_put h.tickets _ _, Dictionary.nodup_keys_put h.onFile _ _⟩

theorem prune (h : g.Distinct) (name : String) (t : Nat) : (g.prune name t).Distinct := by
  rw [Gates.prune]
  cases g.tickets.get? t with
  | none => exact h
  | some number =>
      refine ⟨Dictionary.nodup_keys_erase h.tickets _, ?_⟩
      dsimp only
      split
      · exact Dictionary.nodup_keys_erase h.onFile _
      · exact h.onFile

theorem giveUp (h : g.Distinct) (t : Nat) : (g.giveUp t).1.Distinct := by
  refine ⟨?_, by rw [onFile_giveUp]; exact h.onFile⟩
  rw [Gates.giveUp]
  cases g.tickets.get? t with
  | none => exact h.tickets
  | some number =>
      refine Dictionary.nodup_keys_erase ?_ _
      split
      · rw [tickets_handOn]
        exact h.tickets
      · exact h.tickets

end Distinct

/-- To the gate of a name that one visitor alone visits, refer its ticket and the file. -/
theorem Orderly.references_of_alone (h : g.Orderly visits) (hg : g.Distinct)
    (ht : visits t = some (name, phase))
    (halone : ∀ u phase, visits u = some (name, phase) → u = t)
    (htn : g.tickets.get? t = some n) : g.references n = 2 := by
  obtain ⟨m, htm, hfile⟩ := h.ticket t name phase ht
  rw [htn] at htm
  cases htm
  have htickets := Dictionary.length_filter_of_only hg.tickets htn fun u hun => by
    obtain ⟨other, phase', hu⟩ := h.visit u n hun
    have hname := (h.same_gate ht hu htn).mp hun
    subst hname
    exact halone u phase' hu
  have honFile := Dictionary.length_filter_of_only hg.onFile hfile fun other hother =>
    h.filed other name n hother hfile
  rw [references, htickets, honFile]

/-- The last visitor of a name takes the gate off the file when it prunes. -/
theorem Orderly.get?_onFile_prune_self (h : g.Orderly visits) (hg : g.Distinct)
    (ht : visits t = some (name, phase))
    (halone : ∀ u phase, visits u = some (name, phase) → u = t) :
    (g.prune name t).onFile.get? name = none := by
  obtain ⟨n, htn, -⟩ := h.ticket t name phase ht
  rw [Gates.prune, htn]
  dsimp only
  rw [if_pos (h.references_of_alone hg ht halone htn)]
  exact Dictionary.get?_erase_self _ _

end Gates

namespace Precinct

variable {p : Precinct} {t u : Nat} {name other : String} {act : VisitAct} {phase : VisitPhase}

/-- Nobody refers to the gate of a name, waits at it, is inside or on the way out. -/
def Deserted (p : Precinct) (name : String) : Prop :=
  ∀ u phase, p.visits u ≠ some (name, phase)

theorem distinct_move (h : p.gates.Distinct) (t : Nat) (act : VisitAct) :
    (p.move t act).gates.Distinct := by
  generalize hmoved : p.move t act = p'
  cases moveCase hmoved with
  | idle => exact h
  | call name hact ht => exact h.refer name t
  | join name hact ht => exact h.congr (Gates.tickets_join _ _) (Gates.onFile_join _ _)
  | enter name ht howns => exact h
  | letGo name ht => exact h.congr (Gates.tickets_release _ _) (Gates.onFile_release _ _)
  | prune name ht => exact h.prune name t
  | giveUp name phase ht => exact h.giveUp t

theorem distinct_run (h : p.gates.Distinct) (moves : List (Nat × VisitAct)) :
    (p.run moves).gates.Distinct := by
  induction moves generalizing p with
  | nil => exact h
  | cons m rest ih => exact ih (distinct_move h m.1 m.2)

theorem distinct_start (moves : List (Nat × VisitAct)) : (run {} moves).gates.Distinct :=
  distinct_run (p := {}) ⟨List.nodup_nil, List.nodup_nil⟩ moves

/-- A name that was deserted and is has its gate on file or not, as before. -/
theorem get?_onFile_of_deserted (h : p.Deserted name) (h' : (p.move t act).Deserted name) :
    (p.move t act).gates.onFile.get? name = p.gates.onFile.get? name := by
  generalize hmoved : p.move t act = p' at h' ⊢
  cases moveCase hmoved with
  | idle | enter => rfl
  | call other hact ht =>
      have hne : name ≠ other := by
        rintro rfl
        exact h' t .referring (visits_set_self ..)
      exact Gates.get?_onFile_refer hne t
  | join other hact ht => exact congrArg (Dictionary.get? · name) (Gates.onFile_join _ _)
  | letGo other ht => exact congrArg (Dictionary.get? · name) (Gates.onFile_release _ _)
  | prune other ht =>
      have hne : name ≠ other := by
        rintro rfl
        exact h t .leaving ht
      exact Gates.get?_onFile_prune hne t
  | giveUp other phase ht => exact congrArg (Dictionary.get? · name) (Gates.onFile_giveUp _ _)

/-- Whoever goes was on the way out and prunes, or gives its ticket up. -/
theorem departure (ht : p.visits t = some (name, phase))
    (hgone : ∀ phase, (p.move t act).visits t ≠ some (name, phase)) :
    act = .prune ∧ p.move t act = p.set t (p.gates.prune name t) none ∨
      act = .giveUp ∧ p.move t act = p.set t (p.gates.giveUp t).1 none := by
  have hidle : p.move t act ≠ p := by
    intro hsame
    rw [hsame] at hgone
    exact hgone phase ht
  have hset : ∀ gates phase', p.move t act ≠ p.set t gates (some (name, phase')) := by
    intro gates phase' hset
    apply hgone phase'
    rw [hset, visits_set_self]
  cases act with
  | call other => exact absurd (by simp only [move, ht]) hidle
  | join =>
      cases phase with
      | referring => exact absurd (move_join ht) (hset _ _)
      | waiting | inside | leaving => exact absurd (by simp only [move, ht]) hidle
  | enter =>
      cases phase with
      | waiting =>
          by_cases howns : p.gates.owns t = true
          · exact absurd (move_enter ht howns) (hset _ _)
          · exact absurd (by simp only [move, ht, if_neg howns]) hidle
      | referring | inside | leaving => exact absurd (by simp only [move, ht]) hidle
  | letGo =>
      cases phase with
      | inside => exact absurd (by simp only [move, ht]) (hset (p.gates.release t).1 .leaving)
      | referring | waiting | leaving => exact absurd (by simp only [move, ht]) hidle
  | prune =>
      cases phase with
      | leaving => exact .inl ⟨rfl, by simp only [move, ht]⟩
      | referring | waiting | inside => exact absurd (by simp only [move, ht]) hidle
  | giveUp =>
      cases phase with
      | referring | waiting | leaving => exact .inr ⟨rfl, by simp only [move, ht]⟩
      | inside => exact absurd (by simp only [move, ht]) hidle

/-- Only the last visitor's own step leaves a name deserted. -/
theorem eq_of_deserted (hu : p.visits u = some (name, phase))
    (hlast : (p.move t act).Deserted name) : u = t := by
  by_contra hne
  exact hlast u phase ((visits_move_of_ne hne).trans hu)

/-- When the last visitor goes, the gate comes off the file exactly if that visitor prunes. -/
theorem get?_onFile_of_last (h : p.Orderly) (hg : p.gates.Distinct)
    (ht : p.visits t = some (name, phase)) (hlast : (p.move t act).Deserted name) :
    (p.move t act).gates.onFile.get? name = none ↔ act = .prune := by
  rcases departure ht (hlast t) with ⟨rfl, hmoved⟩ | ⟨rfl, hmoved⟩
  · refine iff_of_true ?_ rfl
    rw [hmoved]
    exact Gates.Orderly.get?_onFile_prune_self h hg ht fun u phase hu => eq_of_deserted hu hlast
  · refine iff_of_false ?_ (fun hact => nomatch hact)
    obtain ⟨n, -, hfile⟩ := Gates.Orderly.ticket h t name phase ht
    rw [hmoved, set, Gates.onFile_giveUp, hfile]
    exact Option.some_ne_none n

/-- Who waits and is the last to go has been let in already. -/
theorem owns_of_last (h : p.Orderly) (ht : p.visits t = some (name, .waiting))
    (hlast : (p.move t act).Deserted name) : p.gates.owns t = true := by
  by_contra howns
  obtain ⟨u, phase, hne, hu, -⟩ :=
    Gates.Orderly.exists_owner h ht (eq_false_of_ne_true howns)
  exact hne (eq_of_deserted hu hlast)

/-- No gate is on file that nobody visits. -/
def Pruned (p : Precinct) : Prop :=
  ∀ name, p.Deserted name → p.gates.onFile.get? name = none

/-- Whether those who give their tickets up wait, and for gates that others own. -/
def Steady : Precinct → List (Nat × VisitAct) → Prop
  | _, [] => True
  | p, (t, act) :: rest =>
    (act = .giveUp → ∀ name phase, p.visits t = some (name, phase) →
      phase = .waiting ∧ p.gates.owns t = false) ∧ Steady (p.move t act) rest

theorem Pruned.move (hp : p.Pruned) (h : p.Orderly) (hg : p.gates.Distinct)
    (hsteady : act = .giveUp → ∀ name phase, p.visits t = some (name, phase) →
      phase = .waiting ∧ p.gates.owns t = false) : (p.move t act).Pruned := by
  intro name hdeserted
  by_cases hbefore : p.Deserted name
  · rw [get?_onFile_of_deserted hbefore hdeserted]
    exact hp name hbefore
  · obtain ⟨u, phase, hu⟩ : ∃ u phase, p.visits u = some (name, phase) := by
      simpa [Deserted] using hbefore
    obtain rfl := eq_of_deserted hu hdeserted
    refine (get?_onFile_of_last h hg hu hdeserted).mpr ?_
    rcases departure hu (hdeserted u) with ⟨rfl, -⟩ | ⟨rfl, -⟩
    · rfl
    · obtain ⟨rfl, howns⟩ := hsteady rfl name phase hu
      rw [owns_of_last h hu hdeserted] at howns
      cases howns

theorem Pruned.run (hp : p.Pruned) (h : p.Orderly) (hg : p.gates.Distinct)
    {moves : List (Nat × VisitAct)} (hsteady : Steady p moves) : (p.run moves).Pruned := by
  induction moves generalizing p with
  | nil => exact hp
  | cons m rest ih =>
      obtain ⟨hact, hrest⟩ := hsteady
      exact ih (hp.move h hg hact) (h.move m.1 m.2) (distinct_move hg m.1 m.2) hrest

/-- Nobody visits a name since a visitor gave its ticket up as the last. -/
inductive LeftBehind (name : String) : List (Nat × VisitAct) → Prop where
  | givenUp {moves : List (Nat × VisitAct)} {t : Nat} {phase : VisitPhase}
    (ht : (run {} moves).visits t = some (name, phase))
    (hlast : ((run {} moves).move t .giveUp).Deserted name) :
    LeftBehind name (moves ++ [(t, .giveUp)])
  | still {moves : List (Nat × VisitAct)} {t : Nat} {act : VisitAct} (hleft : LeftBehind name moves)
    (hdeserted : ((run {} moves).move t act).Deserted name) :
    LeftBehind name (moves ++ [(t, act)])

theorem run_concat (p : Precinct) (moves : List (Nat × VisitAct)) (t : Nat) (act : VisitAct) :
    p.run (moves ++ [(t, act)]) = (p.run moves).move t act :=
  run_append p moves [(t, act)]

theorem LeftBehind.deserted {moves : List (Nat × VisitAct)} (h : LeftBehind name moves) :
    (run {} moves).Deserted name := by
  cases h with
  | givenUp ht hlast => rwa [run_concat]
  | still hleft hdeserted => rwa [run_concat]

/-- Of the last step of a run: it left the name behind itself, or the name was left behind
before. -/
theorem leftBehind_concat_iff {moves : List (Nat × VisitAct)}
    (hdeserted : ((run {} moves).move t act).Deserted name) :
    LeftBehind name (moves ++ [(t, act)]) ↔
      act = .giveUp ∧ (∃ phase, (run {} moves).visits t = some (name, phase)) ∨
        LeftBehind name moves := by
  constructor
  · intro hleft
    generalize hall : moves ++ [(t, act)] = all at hleft
    cases hleft with
    | givenUp ht hlast =>
        obtain ⟨rfl, hlastStep⟩ := List.append_inj' hall rfl
        cases hlastStep
        exact .inl ⟨rfl, _, ht⟩
    | still hleft _ =>
        obtain ⟨rfl, -⟩ := List.append_inj' hall rfl
        exact .inr hleft
  · rintro (⟨rfl, phase, ht⟩ | hleft)
    · exact .givenUp ht hdeserted
    · exact .still hleft hdeserted

/-- The gate of a name that nobody visits is on file exactly if it was left behind. -/
theorem get?_onFile_of_run (moves : List (Nat × VisitAct)) (h : (run {} moves).Deserted name) :
    (run {} moves).gates.onFile.get? name = none ↔ ¬LeftBehind name moves := by
  induction moves using List.reverseRecOn with
  | nil =>
      refine iff_of_true rfl fun hleft => ?_
      generalize hall : ([] : List (Nat × VisitAct)) = all at hleft
      cases hleft <;> simp at hall
  | append_singleton moves m ih =>
      obtain ⟨t, act⟩ := m
      rw [run_concat] at h ⊢
      rw [leftBehind_concat_iff h]
      by_cases hbefore : (run {} moves).Deserted name
      · rw [get?_onFile_of_deserted hbefore h, ih hbefore]
        have hnotVisited : ¬∃ phase, (run {} moves).visits t = some (name, phase) :=
          fun ⟨phase, ht⟩ => hbefore t phase ht
        simp only [hnotVisited, and_false, false_or]
      · obtain ⟨u, phase, hu⟩ : ∃ u phase, (run {} moves).visits u = some (name, phase) := by
          simpa [Deserted] using hbefore
        obtain rfl := eq_of_deserted hu h
        have hnotLeft : ¬LeftBehind name moves := fun hleft => hbefore hleft.deserted
        rw [get?_onFile_of_last (orderly_run moves) (distinct_start moves) hu h]
        simp only [hnotLeft, or_false]
        rcases departure hu (h u) with ⟨rfl, -⟩ | ⟨rfl, -⟩
        · exact iff_of_true rfl (fun hgone => nomatch hgone.1)
        · exact iff_of_false (fun hact => nomatch hact) fun hstays => hstays ⟨rfl, phase, hu⟩

/-- When gates are on file after a run, whatever their visitors did and in whatever order.  While a
name is visited its gate is on file; when the last visitor goes, the gate comes off the file exactly
if it prunes.  So where tickets are given up only for gates that others own, no gate is on file that
nobody visits. -/
structure Pruning (moves : List (Nat × VisitAct)) : Prop where
  visited : ∀ (t : Nat) (name : String) (phase : VisitPhase),
    (run {} moves).visits t = some (name, phase) →
    ∃ n, (run {} moves).gates.onFile.get? name = some n
  last : ∀ (t : Nat) (act : VisitAct) (name : String) (phase : VisitPhase),
    (run {} moves).visits t = some (name, phase) →
    ((run {} moves).move t act).Deserted name →
    (((run {} moves).move t act).gates.onFile.get? name = none ↔ act = .prune)
  granted : ∀ (t : Nat) (name : String), (run {} moves).visits t = some (name, .waiting) →
    ((run {} moves).move t .giveUp).Deserted name → (run {} moves).gates.owns t = true
  deserted : ∀ name, (run {} moves).Deserted name →
    ((run {} moves).gates.onFile.get? name = none ↔ ¬LeftBehind name moves)
  steady : Steady {} moves → (run {} moves).Pruned

/-- Gates come off the file with a last visitor that prunes, and only so. -/
theorem pruned_by_last_visitor (moves : List (Nat × VisitAct)) : Pruning moves where
  visited := by
    intro t name phase ht
    obtain ⟨n, -, hfile⟩ := Gates.Orderly.ticket (orderly_run moves) t name phase ht
    exact ⟨n, hfile⟩
  last := by
    intro t act name phase ht hlast
    exact get?_onFile_of_last (orderly_run moves) (distinct_start moves) ht hlast
  granted := by
    intro t name ht hlast
    exact owns_of_last (orderly_run moves) ht hlast
  deserted := by
    intro name hdeserted
    exact get?_onFile_of_run moves hdeserted
  steady := by
    intro hsteady
    exact Pruned.run (p := {}) (fun _ _ => rfl) Gates.Orderly.new
      ⟨List.nodup_nil, List.nodup_nil⟩ hsteady

/-- The first visitor lets the second in and does not prune, for the second refers to the gate; the
second goes away before it looks, and the gate stays on file with nobody there. -/
theorem let_in_and_gone_leaves_gate :
    let moves := [(1, .call "a"), (1, .join), (1, .enter), (2, .call "a"), (2, .join),
      (1, .letGo), (1, .prune), (2, .giveUp)]
    (run {} moves).Deserted "a" ∧ (run {} moves).gates.onFile.get? "a" = some 0 := by
  intro moves
  refine ⟨fun u phase hu => ?_, by decide⟩
  have hnone : (run {} moves).visits u = none := by
    by_cases hvisitor : u = 1 ∨ u = 2
    · rcases hvisitor with rfl | rfl <;> decide
    · refine (visits_run_of_others (p := {}) fun m hm heq => hvisitor ?_).trans rfl
      have hmovers : ∀ m ∈ moves, m.1 = 1 ∨ m.1 = 2 := by decide
      exact heq ▸ hmovers m hm
  rw [hnone] at hu
  cases hu

end Precinct

end GatewayClient
