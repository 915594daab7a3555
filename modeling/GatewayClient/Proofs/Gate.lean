/-
Gates keep order.  Whoever visits a gate refers to it, queues, is inside, and leaves.  Visitors of
one name are at one gate, only the first in a gate's line is inside, and a gate with a line is never
without an owner; every operation keeps it so, also where a gate is taken off the file.
-/
import GatewayClient.Gate
import GatewayClient.Proofs.Dictionary
import Mathlib.Data.List.Perm.Subperm
import Mathlib.Logic.Function.Basic

namespace GatewayClient

/-- Where the holder of a ticket is: it refers to a gate, waits in its line, is inside, or has let
go of the gate and not given its ticket up. -/
inductive VisitPhase where
  | referring
  | waiting
  | inside
  | leaving
deriving DecidableEq

/-- Whether who is there stands in the line of its gate; who is inside stands first. -/
def VisitPhase.inLine : VisitPhase → Bool
  | waiting | inside => true
  | referring | leaving => false

/-- The owner of a gate, and those behind it. -/
def Gate.line (gate : Gate) : List Nat :=
  gate.owner.toList ++ gate.queue

namespace Gates

theorem gate_setGate {g : Gates} {n : Nat} (hmade : n < g.gates.length) (gate : Gate) (m : Nat) :
    (g.setGate n gate).gate m = if n = m then gate else g.gate m := by
  rw [Gates.gate, setGate, List.getElem?_set, Gates.gate]
  by_cases heq : n = m
  · subst heq
    simp [hmade]
  · simp [heq]

theorem setGate_self {g : Gates} {n : Nat} (hmade : n < g.gates.length) :
    g.setGate n (g.gate n) = g := by
  rw [setGate, Gates.gate, List.getElem?_eq_getElem hmade, Option.getD_some, List.set_getElem_self]

/-- The gates, and where the holders of their tickets are.  A visitor has a ticket for the gate that
is on file under the name. -/
structure Orderly (g : Gates) (visits : Nat → Option (String × VisitPhase)) : Prop where
  ticket : ∀ t name phase, visits t = some (name, phase) →
    ∃ n, g.tickets.get? t = some n ∧ g.onFile.get? name = some n
  visit : ∀ t n, g.tickets.get? t = some n → ∃ name phase, visits t = some (name, phase)
  made : ∀ name n, g.onFile.get? name = some n → n < g.gates.length
  filed : ∀ name other n, g.onFile.get? name = some n → g.onFile.get? other = some n → name = other
  nodup : ∀ n, (g.gate n).line.Nodup
  mem_line : ∀ n t, t ∈ (g.gate n).line ↔ g.tickets.get? t = some n ∧
    ∃ name phase, visits t = some (name, phase) ∧ phase.inLine = true
  inside : ∀ t name n, visits t = some (name, .inside) → g.tickets.get? t = some n →
    (g.gate n).owner = some t
  held : ∀ n, (g.gate n).owner = none → (g.gate n).queue = []

namespace Orderly

variable {g g' : Gates} {visits : Nat → Option (String × VisitPhase)} {t u n : Nat}
  {name other : String} {phase phase' : VisitPhase}

theorem new : Orderly {} fun _ => none where
  ticket := by simp
  visit := by simp
  made := by simp
  filed := by simp
  nodup := by simp [gate, Gate.line]
  mem_line := by simp [gate, Gate.line]
  inside := by simp
  held := by simp [gate]

/-- Visitors of one name are at one gate, and only they are at it. -/
theorem same_gate (h : g.Orderly visits) (ht : visits t = some (name, phase))
    (hu : visits u = some (other, phase')) (htn : g.tickets.get? t = some n) :
    g.tickets.get? u = some n ↔ name = other := by
  obtain ⟨n', htn', hfile⟩ := h.ticket t name phase ht
  obtain ⟨m, hum, hfile'⟩ := h.ticket u other phase' hu
  rw [htn] at htn'
  cases htn'
  constructor
  · intro hun
    rw [hun] at hum
    cases hum
    exact h.filed name other n hfile hfile'
  · rintro rfl
    rw [hfile] at hfile'
    cases hfile'
    exact hum

theorem owns_iff (htn : g.tickets.get? t = some n) :
    g.owns t = true ↔ (g.gate n).owner = some t := by
  rw [owns, htn]
  exact beq_iff_eq

/-- Who is inside owns its gate. -/
theorem owns_of_inside (h : g.Orderly visits) (ht : visits t = some (name, .inside)) :
    g.owns t = true := by
  obtain ⟨n, htn, -⟩ := h.ticket t name .inside ht
  exact (owns_iff htn).mpr (h.inside t name n ht htn)

/-- A name's gate has one owner. -/
theorem eq_of_owns (h : g.Orderly visits) (ht : visits t = some (name, phase))
    (hu : visits u = some (name, phase')) (htowns : g.owns t = true) (huowns : g.owns u = true) :
    t = u := by
  obtain ⟨n, htn, -⟩ := h.ticket t name phase ht
  have hun := (h.same_gate ht hu htn).mpr rfl
  have htowner := (owns_iff htn).mp htowns
  rw [(owns_iff hun).mp huowns] at htowner
  exact (Option.some.inj htowner).symm

/-- Who waits and does not own its gate is behind another visitor of the same name, who owns it. -/
theorem exists_owner (h : g.Orderly visits) (ht : visits t = some (name, .waiting))
    (howns : g.owns t = false) :
    ∃ u phase, u ≠ t ∧ visits u = some (name, phase) ∧ phase.inLine = true ∧ g.owns u = true := by
  obtain ⟨n, htn, -⟩ := h.ticket t name .waiting ht
  have hline := (h.mem_line n t).mpr ⟨htn, name, .waiting, ht, rfl⟩
  have hnot : (g.gate n).owner ≠ some t := by
    intro howner
    rw [(owns_iff htn).mpr howner] at howns
    cases howns
  cases howner : (g.gate n).owner with
  | none =>
      rw [Gate.line, howner, h.held n howner] at hline
      cases hline
  | some u =>
      have hu := (h.mem_line n u).mp (by rw [Gate.line, howner]; exact List.mem_cons_self)
      obtain ⟨hun, other, phase, hvisit, hphase⟩ := hu
      have hname := (h.same_gate ht hvisit htn).mp hun
      subst hname
      refine ⟨u, phase, ?_, hvisit, hphase, (owns_iff hun).mpr howner⟩
      rintro rfl
      exact hnot howner

theorem ticket_made (h : g.Orderly visits) (htn : g.tickets.get? t = some n) :
    n < g.gates.length := by
  obtain ⟨name, phase, ht⟩ := h.visit t n htn
  obtain ⟨m, htm, hfile⟩ := h.ticket t name phase ht
  rw [htn] at htm
  cases htm
  exact h.made name n hfile

/-- In a gate's line stand its visitors that are in line, one of which has gone on. -/
theorem mem_line_setGate (h : g.Orderly visits) (htn : g.tickets.get? t = some n) {gate : Gate}
    (hline : ∀ u, u ∈ gate.line ↔ if u = t then phase'.inLine = true else u ∈ (g.gate n).line)
    (m u : Nat) :
    u ∈ ((g.setGate n gate).gate m).line ↔ g.tickets.get? u = some m ∧
      ∃ other phase, Function.update visits t (some (name, phase')) u = some (other, phase) ∧
        phase.inLine = true := by
  rw [gate_setGate (h.ticket_made htn)]
  by_cases heq : u = t
  · subst heq
    rw [Function.update_self]
    split
    · next hm =>
        subst hm
        rw [hline, if_pos rfl]
        constructor
        · exact fun hphase => ⟨htn, name, phase', rfl, hphase⟩
        · rintro ⟨-, other, phase'', hsame, hphase⟩
          cases hsame
          exact hphase
    · next hm =>
        rw [h.mem_line, htn]
        constructor <;> exact fun hmem => absurd (Option.some.inj hmem.1) hm
  · rw [Function.update_of_ne heq, ← h.mem_line]
    split
    · next hm => rw [hline, if_neg heq, hm]
    · rfl

/-- Who is inside owns its gate, as long as those who have gone on do. -/
theorem inside_setGate (h : g.Orderly visits) (htn : g.tickets.get? t = some n) {gate : Gate}
    (hinside : phase' = .inside → gate.owner = some t)
    (howner : ∀ u, u ≠ t → (g.gate n).owner = some u → gate.owner = some u) {m : Nat}
    (hu : Function.update visits t (some (name, phase')) u = some (other, .inside))
    (hum : g.tickets.get? u = some m) : ((g.setGate n gate).gate m).owner = some u := by
  rw [gate_setGate (h.ticket_made htn)]
  by_cases heq : u = t
  · subst heq
    rw [Function.update_self] at hu
    rw [htn] at hum
    cases hum
    cases hu
    rw [if_pos rfl]
    exact hinside rfl
  · rw [Function.update_of_ne heq] at hu
    have hold := h.inside u other m hu hum
    split
    · next hm =>
        subst hm
        exact howner u heq hold
    · exact hold

/-- A visitor goes on to another phase, and its gate is set to one with another line. -/
theorem setGate (h : g.Orderly visits) (ht : visits t = some (name, phase))
    (htn : g.tickets.get? t = some n) {gate : Gate} (hnodup : gate.line.Nodup)
    (hline : ∀ u, u ∈ gate.line ↔ if u = t then phase'.inLine = true else u ∈ (g.gate n).line)
    (hinside : phase' = .inside → gate.owner = some t)
    (howner : ∀ u, u ≠ t → (g.gate n).owner = some u → gate.owner = some u)
    (hheld : gate.owner = none → gate.queue = []) :
    (g.setGate n gate).Orderly (Function.update visits t (some (name, phase'))) where
  ticket := by
    intro u other phase'' hu
    by_cases heq : u = t
    · subst heq
      rw [Function.update_self] at hu
      cases hu
      exact h.ticket u name phase ht
    · rw [Function.update_of_ne heq] at hu
      exact h.ticket u other phase'' hu
  visit := by
    intro u m hu
    by_cases heq : u = t
    · exact ⟨name, phase', by rw [heq, Function.update_self]⟩
    · rw [Function.update_of_ne heq]
      exact h.visit u m hu
  made := by
    intro other m hfile
    rw [Gates.setGate, List.length_set]
    exact h.made other m hfile
  filed := h.filed
  nodup := by
    intro m
    rw [gate_setGate (h.ticket_made htn)]
    split
    · exact hnodup
    · exact h.nodup m
  mem_line := h.mem_line_setGate htn hline
  inside := fun _ _ _ => h.inside_setGate htn hinside howner
  held := by
    intro m
    rw [gate_setGate (h.ticket_made htn)]
    split
    · exact hheld
    · exact h.held m

/-- A gate that is made and put on file under a name that has none. -/
theorem file (h : g.Orderly visits) (hfree : g.onFile.get? name = none) :
    Orderly { g with onFile := g.onFile.put name g.gates.length, gates := g.gates ++ [{}] }
      visits := by
  have hgate : ∀ m, Gates.gate
      { g with onFile := g.onFile.put name g.gates.length, gates := g.gates ++ [{}] } m =
        g.gate m := by
    intro m
    rw [Gates.gate, Gates.gate, List.getElem?_append]
    split
    · rfl
    · next hmade =>
        rw [List.getElem?_eq_none (Nat.le_of_not_lt hmade)]
        cases (m - g.gates.length) <;> rfl
  have hlater : ∀ other m, g.onFile.get? other = some m → m ≠ g.gates.length :=
    fun other m hfile => Nat.ne_of_lt (h.made other m hfile)
  refine ⟨?_, h.visit, ?_, ?_, ?_, ?_, ?_, ?_⟩
  · intro t other phase ht
    obtain ⟨n, htn, hfile⟩ := h.ticket t other phase ht
    have hne : other ≠ name := by
      rintro rfl
      rw [hfree] at hfile
      cases hfile
    exact ⟨n, htn, by rw [Dictionary.get?_put_of_ne _ _ hne, hfile]⟩
  · intro other m hfile
    rw [List.length_append]
    rw [Dictionary.get?_put] at hfile
    split at hfile
    · cases hfile
      exact Nat.lt_succ_self _
    · exact Nat.lt_succ_of_lt (h.made other m hfile)
  · intro one other m hone hother
    rw [Dictionary.get?_put] at hone hother
    split at hone <;> split at hother
    · next heq heq' => exact heq.symm.trans heq'
    · cases hone
      exact absurd rfl (hlater other _ hother)
    · cases hother
      exact absurd rfl (hlater one _ hone)
    · exact h.filed one other m hone hother
  · intro m
    rw [hgate]
    exact h.nodup m
  · intro m
    rw [hgate]
    exact h.mem_line m
  · intro t other m
    rw [hgate]
    exact h.inside t other m
  · intro m
    rw [hgate]
    exact h.held m

/-- A ticket made out for the gate of a name. -/
theorem put (h : g.Orderly visits) (ht : visits t = none) (hfile : g.onFile.get? name = some n) :
    Orderly { g with tickets := g.tickets.put t n }
      (Function.update visits t (some (name, .referring))) := by
  have hnone : g.tickets.get? t = none := by
    apply Option.eq_none_iff_forall_ne_some.mpr
    intro m htm
    obtain ⟨other, phase, hvisit⟩ := h.visit t m htm
    rw [ht] at hvisit
    cases hvisit
  refine ⟨?_, ?_, h.made, h.filed, h.nodup, ?_, ?_, h.held⟩
  · intro u other phase hu
    by_cases heq : u = t
    · subst heq
      rw [Function.update_self] at hu
      cases hu
      exact ⟨n, Dictionary.get?_put_self _ _ _, hfile⟩
    · rw [Function.update_of_ne heq] at hu
      rw [Dictionary.get?_put_of_ne _ _ heq]
      exact h.ticket u other phase hu
  · intro u m hum
    by_cases heq : u = t
    · exact ⟨name, .referring, by rw [heq, Function.update_self]⟩
    · rw [Dictionary.get?_put_of_ne _ _ heq] at hum
      rw [Function.update_of_ne heq]
      exact h.visit u m hum
  · intro m u
    apply (h.mem_line m u).trans
    by_cases heq : u = t
    · subst heq
      rw [Function.update_self, hnone]
      constructor
      · rintro ⟨hum, -⟩
        cases hum
      · rintro ⟨-, other, phase, hsame, hphase⟩
        cases hsame
        cases hphase
    · rw [Function.update_of_ne heq, Dictionary.get?_put_of_ne _ _ heq]
  · intro u other m hu hum
    by_cases heq : u = t
    · subst heq
      rw [Function.update_self] at hu
      cases hu
    · rw [Function.update_of_ne heq] at hu
      rw [Dictionary.get?_put_of_ne _ _ heq] at hum
      exact h.inside u other m hu hum

theorem refer (h : g.Orderly visits) (ht : visits t = none) (name : String) :
    (g.refer name t).Orderly (Function.update visits t (some (name, .referring))) := by
  rw [Gates.refer, open?]
  cases hfile : g.onFile.get? name with
  | some n => exact h.put ht hfile
  | none => exact (h.file hfile).put ht (Dictionary.get?_put_self _ _ _)

theorem not_mem_line (h : g.Orderly visits) (ht : visits t = some (name, phase))
    (hphase : phase.inLine = false) (n : Nat) : t ∉ (g.gate n).line := by
  intro hline
  obtain ⟨-, other, phase', ht', hphase'⟩ := (h.mem_line n t).mp hline
  rw [ht] at ht'
  cases ht'
  rw [hphase] at hphase'
  cases hphase'

/-- Who joins comes last in the line of its gate, and owns it if nobody did. -/
theorem join (h : g.Orderly visits) (ht : visits t = some (name, .referring)) :
    (g.join t).Orderly (Function.update visits t (some (name, .waiting))) := by
  obtain ⟨n, htn, -⟩ := h.ticket t name .referring ht
  have hnot := h.not_mem_line ht rfl n
  have hnodup := h.nodup n
  cases howner : (g.gate n).owner with
  | none =>
      have hqueue := h.held n howner
      have hjoin : g.join t = g.setGate n { g.gate n with owner := some t } := by
        simp only [Gates.join, htn, howner]
      rw [hjoin]
      apply h.setGate ht htn
      · simp [Gate.line, hqueue]
      · intro u
        by_cases heq : u = t <;> simp [Gate.line, hqueue, howner, heq, VisitPhase.inLine]
      · exact VisitPhase.noConfusion
      · intro u _ hu
        rw [howner] at hu
        cases hu
      · intro hnone
        cases hnone
  | some head =>
      have hjoin : g.join t = g.setGate n { g.gate n with queue := (g.gate n).queue ++ [t] } := by
        simp only [Gates.join, htn, howner]
      have hline : Gate.line { g.gate n with queue := (g.gate n).queue ++ [t] } =
          (g.gate n).line ++ [t] := by
        rw [Gate.line, Gate.line, List.append_assoc]
      rw [hjoin]
      apply h.setGate ht htn
      · rw [hline]
        apply List.nodup_append.mpr
        refine ⟨hnodup, List.nodup_singleton t, ?_⟩
        rintro u hu _ hlast rfl
        rw [List.mem_singleton.mp hlast] at hu
        exact hnot hu
      · intro u
        rw [hline, List.mem_append, List.mem_singleton]
        by_cases heq : u = t <;> simp [heq, VisitPhase.inLine]
      · exact VisitPhase.noConfusion
      · exact fun _ _ hu => hu
      · intro hnone
        rw [howner] at hnone
        cases hnone

/-- Who owns its gate goes in. -/
theorem enter (h : g.Orderly visits) (ht : visits t = some (name, .waiting))
    (howns : g.owns t = true) :
    g.Orderly (Function.update visits t (some (name, .inside))) := by
  obtain ⟨n, htn, -⟩ := h.ticket t name .waiting ht
  have howner := (owns_iff htn).mp howns
  rw [← setGate_self (h.ticket_made htn)]
  refine h.setGate ht htn (h.nodup n) ?_ (fun _ => howner) (fun _ _ hu => hu) (h.held n)
  intro u
  by_cases heq : u = t
  · subst heq
    rw [if_pos rfl]
    exact iff_of_true ((h.mem_line n u).mpr ⟨htn, name, .waiting, ht, rfl⟩) rfl
  · rw [if_neg heq]

/-- Who owns its gate lets go of it, and the next in line owns it. -/
theorem handOn (h : g.Orderly visits) (ht : visits t = some (name, phase))
    (htn : g.tickets.get? t = some n) (howner : (g.gate n).owner = some t) :
    (g.handOn n).1.Orderly (Function.update visits t (some (name, .leaving))) := by
  have hnodup := h.nodup n
  have hline : (g.gate n).line = t :: (g.gate n).queue := by
    rw [Gate.line, howner]
    rfl
  rw [hline, List.nodup_cons] at hnodup
  have hnext : ∃ gate : Gate, (g.handOn n).1 = g.setGate n gate ∧ gate.line = (g.gate n).queue ∧
      (gate.owner = none → gate.queue = []) := by
    rw [Gates.handOn]
    cases hqueue : (g.gate n).queue with
    | nil => exact ⟨⟨none, []⟩, rfl, rfl, fun _ => rfl⟩
    | cons head rest => exact ⟨⟨some head, rest⟩, rfl, rfl, fun hnone => nomatch hnone⟩
  obtain ⟨gate, heq, hgateLine, hheld⟩ := hnext
  rw [heq]
  apply h.setGate ht htn
  · rw [hgateLine]
    exact hnodup.2
  · intro u
    rw [hgateLine, hline]
    by_cases heq : u = t
    · subst heq
      rw [if_pos rfl]
      exact iff_of_false hnodup.1 Bool.noConfusion
    · rw [if_neg heq, List.mem_cons]
      simp [heq]
  · exact VisitPhase.noConfusion
  · intro u hu hown
    rw [howner] at hown
    exact absurd (Option.some.inj hown).symm hu
  · exact hheld

theorem release (h : g.Orderly visits) (ht : visits t = some (name, .inside)) :
    (g.release t).1.Orderly (Function.update visits t (some (name, .leaving))) := by
  obtain ⟨n, htn, -⟩ := h.ticket t name .inside ht
  rw [Gates.release, htn]
  exact h.handOn ht htn (h.inside t name n ht htn)

/-- A ticket whose holder is not in line is given up; its gate may be taken off the file if no other
ticket refers to it. -/
theorem forget (h : g.Orderly visits) (ht : visits t = some (name, .leaving))
    (onFile : Dictionary String Nat)
    (hfile : ∀ other n, onFile.get? other = some n → g.onFile.get? other = some n)
    (hkept : ∀ u other phase, u ≠ t → visits u = some (other, phase) →
      onFile.get? other = g.onFile.get? other) :
    Orderly { g with onFile := onFile, tickets := g.tickets.erase t }
      (Function.update visits t none) := by
  refine ⟨?_, ?_, ?_, ?_, h.nodup, ?_, ?_, h.held⟩
  · intro u other phase hu
    by_cases heq : u = t
    · rw [heq, Function.update_self] at hu
      cases hu
    · rw [Function.update_of_ne heq] at hu
      obtain ⟨n, hun, hfile'⟩ := h.ticket u other phase hu
      exact ⟨n, by rw [Dictionary.get?_erase_of_ne _ heq, hun],
        (hkept u other phase heq hu).trans hfile'⟩
  · intro u n hun
    rw [Dictionary.get?_erase] at hun
    split at hun
    · cases hun
    · next hne =>
        rw [Function.update_of_ne (Ne.symm hne)]
        exact h.visit u n hun
  · exact fun other n hother => h.made other n (hfile other n hother)
  · exact fun one other n hone hother =>
      h.filed one other n (hfile one n hone) (hfile other n hother)
  · intro m u
    apply (h.mem_line m u).trans
    by_cases heq : u = t
    · subst heq
      rw [Function.update_self, Dictionary.get?_erase_self]
      constructor
      · rintro ⟨hum, other, phase, hu, hphase⟩
        rw [ht] at hu
        cases hu
        cases hphase
      · rintro ⟨hum, -⟩
        cases hum
    · rw [Function.update_of_ne heq, Dictionary.get?_erase_of_ne _ heq]
  · intro u other m hu hum
    rw [Dictionary.get?_erase] at hum
    split at hum
    · cases hum
    · next hne =>
        rw [Function.update_of_ne (Ne.symm hne)] at hu
        exact h.inside u other m hu hum

/-- A gate to which two refer, of which one is the file and one a ticket, has no other ticket. -/
theorem two_lt_references (h : g.Orderly visits) (ht : visits t = some (name, phase))
    (hu : visits u = some (name, phase')) (hne : u ≠ t) (htn : g.tickets.get? t = some n) :
    2 < g.references n := by
  obtain ⟨m, htm, hfile⟩ := h.ticket t name phase ht
  rw [htn] at htm
  cases htm
  have hun := (h.same_gate ht hu htn).mpr rfl
  have hfiled : 0 < (g.onFile.filter fun entry => entry.2 == n).length :=
    List.length_pos_of_mem (List.mem_filter.mpr ⟨Dictionary.mem_of_get? hfile, by simp⟩)
  have htwo : 1 < (g.tickets.filter fun ticket => ticket.2 == n).length := by
    have hsub : [(t, n), (u, n)] ⊆ g.tickets.filter fun ticket => ticket.2 == n := by
      intro entry hentry
      rcases List.mem_cons.mp hentry with rfl | hentry
      · exact List.mem_filter.mpr ⟨Dictionary.mem_of_get? htn, by simp⟩
      · rw [List.mem_singleton.mp hentry]
        exact List.mem_filter.mpr ⟨Dictionary.mem_of_get? hun, by simp⟩
    have hnodup : [(t, n), (u, n)].Nodup := by simp [Ne.symm hne]
    exact (List.subperm_of_subset hnodup hsub).length_le
  rw [references]
  omega

/-- Who has let go gives its ticket up; the gate comes off the file if nobody else refers to it. -/
theorem prune (h : g.Orderly visits) (ht : visits t = some (name, .leaving)) :
    (g.prune name t).Orderly (Function.update visits t none) := by
  obtain ⟨n, htn, -⟩ := h.ticket t name .leaving ht
  rw [Gates.prune, htn]
  refine h.forget ht _ ?_ ?_
  · intro other m hfile
    split at hfile
    · rw [Dictionary.get?_erase] at hfile
      split at hfile
      · cases hfile
      · exact hfile
    · exact hfile
  · intro u other phase hne hu
    split
    · next hreferences =>
        have hother : other ≠ name := by
          rintro rfl
          have htwo := h.two_lt_references ht hu hne htn
          omega
        exact Dictionary.get?_erase_of_ne _ hother
    · rfl

theorem leave (h : g.Orderly visits) (ht : visits t = some (name, .inside)) :
    (g.leave name t).1.Orderly (Function.update visits t none) := by
  have hpruned := (h.release ht).prune (Function.update_self ..)
  rwa [Function.update_idem] at hpruned

/-- A visitor gives its ticket up, and leaves the line if it is in it. -/
theorem giveUp (h : g.Orderly visits) (ht : visits t = some (name, phase)) :
    (g.giveUp t).1.Orderly (Function.update visits t none) := by
  obtain ⟨n, htn, -⟩ := h.ticket t name phase ht
  have hgone : ∀ g' : Gates, g'.Orderly (Function.update visits t (some (name, .leaving))) →
      Orderly { g' with tickets := g'.tickets.erase t } (Function.update visits t none) := by
    intro g' h'
    have hforgotten := h'.forget (Function.update_self ..) g'.onFile (fun _ _ hfile => hfile)
      fun _ _ _ _ _ => rfl
    rwa [Function.update_idem] at hforgotten
  rw [Gates.giveUp, htn]
  dsimp only
  split
  · next howns => exact hgone _ (h.handOn ht htn ((owns_iff htn).mp howns))
  · next howns =>
      have hnot : (g.gate n).owner ≠ some t := fun howner => howns ((owns_iff htn).mpr howner)
      have hline : Gate.line { g.gate n with queue := (g.gate n).queue.erase t } =
          (g.gate n).line.erase t := by
        rw [Gate.line, Gate.line, List.erase_append_right]
        rw [Option.mem_toList]
        exact hnot
      apply hgone
      apply h.setGate ht htn
      · rw [hline]
        exact (h.nodup n).erase t
      · intro u
        rw [hline, (h.nodup n).mem_erase_iff]
        by_cases heq : u = t <;> simp [heq, VisitPhase.inLine]
      · exact VisitPhase.noConfusion
      · exact fun _ _ hu => hu
      · intro hnone
        rw [h.held n hnone]
        rfl

end Orderly

end Gates

end GatewayClient
