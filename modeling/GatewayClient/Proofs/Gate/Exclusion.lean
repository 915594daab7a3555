/-
Gates exclude.  Any number of visitors come to gates of any names, and their steps come in any
order: each makes out a ticket, joins the line, goes in, lets go and prunes, or gives its ticket up
on the way.  A name never has two visitors inside, although its gate comes off the file and is made
again; and who comes where nobody holds or waits is let in by its own steps alone.
-/
import GatewayClient.Proofs.Gate

namespace GatewayClient

namespace Gates

variable {g : Gates} {visits : Nat → Option (String × VisitPhase)} {t u m : Nat} {name : String}

theorem ticket_of_owns (howns : g.owns t = true) :
    ∃ n, g.tickets.get? t = some n ∧ (g.gate n).owner = some t := by
  cases htn : g.tickets.get? t with
  | none =>
      rw [owns, htn] at howns
      cases howns
  | some n => exact ⟨n, rfl, (Orderly.owns_iff htn).mp howns⟩

/-- Another ticket's owner stays where a gate is set to one that keeps it. -/
theorem owns_setGate (hmade : m < g.gates.length) (howns : g.owns t = true) {gate : Gate}
    (hkept : (g.gate m).owner = some t → gate.owner = some t) :
    (g.setGate m gate).owns t = true := by
  obtain ⟨n, htn, howner⟩ := ticket_of_owns howns
  refine (Orderly.owns_iff (g := g.setGate m gate) htn).mpr ?_
  rw [gate_setGate hmade]
  split
  · next heq =>
      subst heq
      exact hkept howner
  · exact howner

theorem owns_erase (hne : t ≠ u) (howns : g.owns t = true) (onFile : Dictionary String Nat) :
    owns { g with onFile := onFile, tickets := g.tickets.erase u } t = true := by
  rw [owns, Dictionary.get?_erase_of_ne _ hne]
  exact howns

namespace Orderly

theorem owns_refer (h : g.Orderly visits) (hne : t ≠ u) (howns : g.owns t = true) (name : String) :
    (g.refer name u).owns t = true := by
  obtain ⟨n, htn, howner⟩ := ticket_of_owns howns
  rw [Gates.refer, open?]
  cases g.onFile.get? name with
  | some m => exact (owns_iff (by rw [Dictionary.get?_put_of_ne _ _ hne, htn])).mpr howner
  | none =>
      refine (owns_iff (n := n) (by rw [Dictionary.get?_put_of_ne _ _ hne, htn])).mpr ?_
      rw [gate, List.getElem?_append_left (h.ticket_made htn)]
      exact howner

theorem owns_join (h : g.Orderly visits) (howns : g.owns t = true) : (g.join u).owns t = true := by
  rw [Gates.join]
  split
  · next m hum =>
      dsimp only
      split
      · next hfree =>
          refine owns_setGate (h.ticket_made hum) howns fun hkept => ?_
          rw [hfree] at hkept
          cases hkept
      · exact owns_setGate (h.ticket_made hum) howns id
  · exact howns

theorem owns_handOn (h : g.Orderly visits) (hne : t ≠ u) (hun : g.tickets.get? u = some m)
    (howner : (g.gate m).owner = some u) (howns : g.owns t = true) :
    (g.handOn m).1.owns t = true := by
  have hother : (g.gate m).owner ≠ some t := by
    rw [howner]
    exact fun heq => hne (Option.some.inj heq).symm
  rw [Gates.handOn]
  cases (g.gate m).queue with
  | nil => exact owns_setGate (h.ticket_made hun) howns fun hkept => absurd hkept hother
  | cons head rest =>
      exact owns_setGate (h.ticket_made hun) howns fun hkept => absurd hkept hother

theorem owns_release (h : g.Orderly visits) (hu : visits u = some (name, .inside)) (hne : t ≠ u)
    (howns : g.owns t = true) : (g.release u).1.owns t = true := by
  obtain ⟨m, hum, -⟩ := h.ticket u name .inside hu
  rw [Gates.release, hum]
  exact h.owns_handOn hne hum (h.inside u name m hu hum) howns

theorem owns_giveUp (h : g.Orderly visits) (hne : t ≠ u) (howns : g.owns t = true) :
    (g.giveUp u).1.owns t = true := by
  rw [Gates.giveUp]
  cases hum : g.tickets.get? u with
  | none => exact howns
  | some m =>
      dsimp only
      split
      · next huowns =>
          exact owns_erase hne (h.owns_handOn hne hum ((owns_iff hum).mp huowns) howns) _
      · refine owns_erase hne (owns_setGate (h.ticket_made hum) howns ?_) _
        exact id

/-- Who joins where nobody of the name is in line owns the gate. -/
theorem owns_join_self (h : g.Orderly visits) (ht : visits t = some (name, .referring))
    (hvacant : ∀ u phase, visits u = some (name, phase) → phase.inLine = false) :
    (g.join t).owns t = true := by
  obtain ⟨n, htn, -⟩ := h.ticket t name .referring ht
  have howner : (g.gate n).owner = none := by
    apply Option.eq_none_iff_forall_ne_some.mpr
    intro u hu
    obtain ⟨hun, other, phase, hvisit, hphase⟩ :=
      (h.mem_line n u).mp (by rw [Gate.line, hu]; exact List.mem_cons_self)
    have hname := (h.same_gate ht hvisit htn).mp hun
    subst hname
    rw [hvacant u phase hvisit] at hphase
    cases hphase
  have hjoin : g.join t = g.setGate n { g.gate n with owner := some t } := by
    simp only [Gates.join, htn, howner]
  rw [hjoin]
  refine (owns_iff (g := g.setGate n _) htn).mpr ?_
  rw [gate_setGate (h.ticket_made htn), if_pos rfl]

end Orderly

theorem owns_prune (hne : t ≠ u) (howns : g.owns t = true) (name : String) :
    (g.prune name u).owns t = true := by
  rw [prune]
  cases g.tickets.get? u with
  | none => exact howns
  | some m => exact owns_erase hne howns _

end Gates

/-- What a visitor of a gate does in one step: it makes out a ticket for the gate of a name, comes
to it, goes in when it has been let in, lets go of the gate, and takes the gate off the file if
nobody else refers to it.  It gives its ticket up with the gate on file if it goes before it was in,
or where others who have given theirs up are seen to refer to the gate still. -/
inductive VisitAct where
  | call (name : String)
  | join
  | enter
  | letGo
  | prune
  | giveUp
deriving DecidableEq

/-- The gates together with their visitors. -/
structure Precinct where
  gates : Gates := {}
  visits : Nat → Option (String × VisitPhase) := fun _ => none

namespace Precinct

/-- The gates after a visitor's step, and the visitor where it is now. -/
def set (p : Precinct) (t : Nat) (gates : Gates) (visit : Option (String × VisitPhase)) :
    Precinct :=
  ⟨gates, Function.update p.visits t visit⟩

/-- One step of one visitor.  What it cannot do where it is does nothing. -/
def move (p : Precinct) (t : Nat) (act : VisitAct) : Precinct :=
  match act, p.visits t with
  | .call name, none => p.set t (p.gates.refer name t) (some (name, .referring))
  | .join, some (name, .referring) => p.set t (p.gates.join t) (some (name, .waiting))
  | .enter, some (name, .waiting) =>
    if p.gates.owns t then p.set t p.gates (some (name, .inside)) else p
  | .letGo, some (name, .inside) => p.set t (p.gates.release t).1 (some (name, .leaving))
  | .prune, some (name, .leaving) => p.set t (p.gates.prune name t) none
  | .giveUp, some (_, .referring) => p.set t (p.gates.giveUp t).1 none
  | .giveUp, some (_, .waiting) => p.set t (p.gates.giveUp t).1 none
  | .giveUp, some (_, .leaving) => p.set t (p.gates.giveUp t).1 none
  | _, _ => p

/-- The steps of any visitors, one after another. -/
def run (p : Precinct) (moves : List (Nat × VisitAct)) : Precinct :=
  moves.foldl (fun p m => p.move m.1 m.2) p

theorem run_append (p : Precinct) (moves later : List (Nat × VisitAct)) :
    p.run (moves ++ later) = (p.run moves).run later :=
  List.foldl_append ..

/-- The steps there are. -/
inductive MoveCase (p : Precinct) (t : Nat) (act : VisitAct) : Precinct → Prop where
  | idle : MoveCase p t act p
  | call (name : String) (hact : act = .call name) (ht : p.visits t = none) :
    MoveCase p t act (p.set t (p.gates.refer name t) (some (name, .referring)))
  | join (name : String) (hact : act = .join) (ht : p.visits t = some (name, .referring)) :
    MoveCase p t act (p.set t (p.gates.join t) (some (name, .waiting)))
  | enter (name : String) (ht : p.visits t = some (name, .waiting))
    (howns : p.gates.owns t = true) :
    MoveCase p t act (p.set t p.gates (some (name, .inside)))
  | letGo (name : String) (ht : p.visits t = some (name, .inside)) :
    MoveCase p t act (p.set t (p.gates.release t).1 (some (name, .leaving)))
  | prune (name : String) (ht : p.visits t = some (name, .leaving)) :
    MoveCase p t act (p.set t (p.gates.prune name t) none)
  | giveUp (name : String) (phase : VisitPhase) (ht : p.visits t = some (name, phase)) :
    MoveCase p t act (p.set t (p.gates.giveUp t).1 none)

theorem moveCase {p p' : Precinct} {t : Nat} {act : VisitAct} (hmoved : p.move t act = p') :
    MoveCase p t act p' := by
  subst hmoved
  unfold move
  split
  · next ht => exact .call _ rfl ht
  · next ht => exact .join _ rfl ht
  · next ht =>
      split
      · next howns => exact .enter _ ht howns
      · exact .idle
  · next ht => exact .letGo _ ht
  · next ht => exact .prune _ ht
  · next ht => exact .giveUp _ _ ht
  · next ht => exact .giveUp _ _ ht
  · next ht => exact .giveUp _ _ ht
  · exact .idle

variable {p : Precinct} {t u : Nat} {name : String} {act : VisitAct}

/-- The gates are in order with the visitors where they are. -/
def Orderly (p : Precinct) : Prop :=
  p.gates.Orderly p.visits

theorem Orderly.move (h : p.Orderly) (t : Nat) (act : VisitAct) : (p.move t act).Orderly := by
  generalize hmoved : p.move t act = p'
  cases moveCase hmoved with
  | idle => exact h
  | call name hact ht => exact Gates.Orderly.refer h ht name
  | join name hact ht => exact Gates.Orderly.join h ht
  | enter name ht howns => exact Gates.Orderly.enter h ht howns
  | letGo name ht => exact Gates.Orderly.release h ht
  | prune name ht => exact Gates.Orderly.prune h ht
  | giveUp name phase ht => exact Gates.Orderly.giveUp h ht

theorem Orderly.run (h : p.Orderly) (moves : List (Nat × VisitAct)) : (p.run moves).Orderly := by
  induction moves generalizing p with
  | nil => exact h
  | cons m rest ih => exact ih (h.move m.1 m.2)

theorem orderly_run (moves : List (Nat × VisitAct)) : (run {} moves).Orderly :=
  Orderly.run (p := {}) Gates.Orderly.new moves

theorem visits_set_of_ne (hne : t ≠ u) (gates : Gates) (visit : Option (String × VisitPhase)) :
    (p.set u gates visit).visits t = p.visits t :=
  Function.update_of_ne hne ..

theorem visits_set_self (p : Precinct) (t : Nat) (gates : Gates)
    (visit : Option (String × VisitPhase)) : (p.set t gates visit).visits t = visit :=
  Function.update_self ..

/-- Others do not move a visitor. -/
theorem visits_move_of_ne (hne : t ≠ u) : (p.move u act).visits t = p.visits t := by
  generalize hmoved : p.move u act = p'
  cases moveCase hmoved with
  | idle => rfl
  | call | join | enter | letGo | prune | giveUp => exact visits_set_of_ne hne ..

theorem visits_run_of_others {moves : List (Nat × VisitAct)} (hothers : ∀ m ∈ moves, m.1 ≠ t) :
    (p.run moves).visits t = p.visits t := by
  induction moves generalizing p with
  | nil => rfl
  | cons m rest ih =>
      have hrest := ih (p := p.move m.1 m.2) fun m hm => hothers m (List.mem_cons_of_mem _ hm)
      exact hrest.trans (visits_move_of_ne (hothers m List.mem_cons_self).symm)

/-- Others do not take a gate from its owner. -/
theorem owns_move_of_ne (h : p.Orderly) (hne : t ≠ u) (howns : p.gates.owns t = true) :
    (p.move u act).gates.owns t = true := by
  generalize hmoved : p.move u act = p'
  cases moveCase hmoved with
  | idle => exact howns
  | call name hact hu => exact Gates.Orderly.owns_refer h hne howns name
  | join name hact hu => exact Gates.Orderly.owns_join h howns
  | enter name hu huowns => exact howns
  | letGo name hu => exact Gates.Orderly.owns_release h hu hne howns
  | prune name hu => exact Gates.owns_prune hne howns name
  | giveUp name phase hu => exact Gates.Orderly.owns_giveUp h hne howns

theorem owns_run_of_others (h : p.Orderly) {moves : List (Nat × VisitAct)}
    (hothers : ∀ m ∈ moves, m.1 ≠ t) (howns : p.gates.owns t = true) :
    (p.run moves).gates.owns t = true := by
  induction moves generalizing p with
  | nil => exact howns
  | cons m rest ih =>
      exact ih (h.move m.1 m.2) (fun m hm => hothers m (List.mem_cons_of_mem _ hm))
        (owns_move_of_ne h (hothers m List.mem_cons_self).symm howns)

/-- Nobody holds the gate of a name or waits at it. -/
def Vacant (p : Precinct) (name : String) : Prop :=
  ∀ u phase, p.visits u = some (name, phase) → phase.inLine = false

/-- No step is made by who visits the name already. -/
def Elsewhere (name : String) : Precinct → List (Nat × VisitAct) → Prop
  | _, [] => True
  | p, (u, act) :: rest =>
    (∀ phase, p.visits u ≠ some (name, phase)) ∧ Elsewhere name (p.move u act) rest

theorem Vacant.set (h : p.Vacant name) (t : Nat) (gates : Gates)
    {visit : Option (String × VisitPhase)}
    (hvisit : ∀ phase, visit = some (name, phase) → phase.inLine = false) :
    (p.set t gates visit).Vacant name := by
  intro u phase hu
  by_cases heq : u = t
  · rw [heq, visits_set_self] at hu
    exact hvisit phase hu
  · rw [visits_set_of_ne heq] at hu
    exact h u phase hu

/-- A visitor of another name does not come into the line of a name. -/
theorem Vacant.move (h : p.Vacant name) (hother : ∀ phase, p.visits u ≠ some (name, phase)) :
    (p.move u act).Vacant name := by
  have hstays : ∀ phase phase' : VisitPhase, ∀ other, p.visits u = some (other, phase) →
      ∀ phase'', some (other, phase') = some (name, phase'') → phase''.inLine = false := by
    rintro phase phase' other hu phase'' heq
    cases heq
    exact absurd hu (hother phase)
  generalize hmoved : p.move u act = p'
  cases moveCase hmoved with
  | idle => exact h
  | call other hact hu =>
      refine h.set u _ fun phase heq => ?_
      cases heq
      rfl
  | join other hact hu => exact h.set u _ (hstays _ _ other hu)
  | enter other hu howns => exact h.set u _ (hstays _ _ other hu)
  | letGo other hu => exact h.set u _ (hstays _ _ other hu)
  | prune other hu => exact h.set u _ (fun _ heq => nomatch heq)
  | giveUp other phase hu => exact h.set u _ (fun _ heq => nomatch heq)

theorem Vacant.run (h : p.Vacant name) {moves : List (Nat × VisitAct)}
    (helsewhere : Elsewhere name p moves) : (p.run moves).Vacant name := by
  induction moves generalizing p with
  | nil => exact h
  | cons m rest ih =>
      obtain ⟨hother, hrest⟩ := helsewhere
      exact ih (h.move hother) hrest

theorem move_call (ht : p.visits t = none) :
    p.move t (.call name) = p.set t (p.gates.refer name t) (some (name, .referring)) := by
  simp only [move, ht]

theorem move_join (ht : p.visits t = some (name, .referring)) :
    p.move t .join = p.set t (p.gates.join t) (some (name, .waiting)) := by
  simp only [move, ht]

theorem move_enter (ht : p.visits t = some (name, .waiting)) (howns : p.gates.owns t = true) :
    p.move t .enter = p.set t p.gates (some (name, .inside)) := by
  simp only [move, ht, howns, if_true]

/-- Who joins a vacant name's gate goes in with its next step, whatever others do in between. -/
theorem inside_of_vacant (h : p.Orderly) (ht : p.visits t = some (name, .referring))
    (hvacant : p.Vacant name) {others : List (Nat × VisitAct)}
    (hothers : ∀ m ∈ others, m.1 ≠ t) :
    (((p.move t .join).run others).move t .enter).visits t = some (name, .inside) := by
  have hwaiting : ((p.move t .join).run others).visits t = some (name, .waiting) := by
    rw [visits_run_of_others hothers, move_join ht, visits_set_self]
  have howns : ((p.move t .join).run others).gates.owns t = true := by
    refine owns_run_of_others (h.move t .join) hothers ?_
    rw [move_join ht]
    exact Gates.Orderly.owns_join_self h ht hvacant
  rw [move_enter hwaiting howns, visits_set_self]

/-- What holds of the visitors of gates, whatever each of them does and in whatever order.  All
visitors of a name refer to one gate, and at most one is inside.  Who comes to a gate where nobody
is in line is let in; so a call for a name that nobody holds or waits for is granted by its own
three steps, and only until it has joined others keep to other names. -/
structure Exclusion : Prop where
  exclusive : ∀ (moves : List (Nat × VisitAct)) (t u : Nat) (name : String),
    (run {} moves).visits t = some (name, .inside) →
    (run {} moves).visits u = some (name, .inside) → t = u
  shared : ∀ (moves : List (Nat × VisitAct)) (t : Nat) (name : String) (phase : VisitPhase),
    (run {} moves).visits t = some (name, phase) →
    ∃ n, (run {} moves).gates.tickets.get? t = some n ∧
      (run {} moves).gates.onFile.get? name = some n ∧
      ∀ u other phase', (run {} moves).visits u = some (other, phase') →
        ((run {} moves).gates.tickets.get? u = some n ↔ name = other)
  granted : ∀ (moves others : List (Nat × VisitAct)) (t : Nat) (name : String),
    (run {} moves).visits t = some (name, .referring) → (run {} moves).Vacant name →
    (∀ m ∈ others, m.1 ≠ t) →
    ((((run {} moves).move t .join).run others).move t .enter).visits t = some (name, .inside)
  prompt : ∀ (moves before between : List (Nat × VisitAct)) (t : Nat) (name : String),
    (run {} moves).visits t = none → (run {} moves).Vacant name →
    (∀ m ∈ before ++ between, m.1 ≠ t) →
    Elsewhere name ((run {} moves).move t (.call name)) before →
    ((((((run {} moves).move t (.call name)).run before).move t .join).run between).move
      t .enter).visits t = some (name, .inside)

/-- Gates exclude, and taking them off the file does not break it. -/
theorem gates_exclude : Exclusion where
  exclusive := by
    intro moves t u name ht hu
    have h := orderly_run moves
    exact Gates.Orderly.eq_of_owns h ht hu (Gates.Orderly.owns_of_inside h ht)
      (Gates.Orderly.owns_of_inside h hu)
  shared := by
    intro moves t name phase ht
    have h := orderly_run moves
    obtain ⟨n, htn, hfile⟩ := Gates.Orderly.ticket h t name phase ht
    exact ⟨n, htn, hfile, fun u other phase' hu => Gates.Orderly.same_gate h ht hu htn⟩
  granted := by
    intro moves others t name ht hvacant hothers
    exact inside_of_vacant (orderly_run moves) ht hvacant hothers
  prompt := by
    intro moves before between t name ht hvacant hothers helsewhere
    have hbefore : ∀ m ∈ before, m.1 ≠ t := fun m hm =>
      hothers m (List.mem_append_left _ hm)
    have hcalled : ((run {} moves).move t (.call name)).visits t = some (name, .referring) := by
      rw [move_call ht, visits_set_self]
    have hvacant' : ((run {} moves).move t (.call name)).Vacant name := by
      apply hvacant.move
      intro phase
      rw [ht]
      exact nofun
    refine inside_of_vacant ((orderly_run moves).move t _ |>.run before) ?_
      (hvacant'.run helsewhere) fun m hm => hothers m (List.mem_append_right _ hm)
    rw [visits_run_of_others hbefore, hcalled]

/-- A gate comes off the file with its last visitor, and the next visitor's gate is a new one. -/
example :
    let moves := [(1, .call "a"), (1, .join), (1, .enter), (1, .letGo), (1, .prune)]
    ((run {} moves).gates.onFile.get? "a" = none) ∧
      (run {} (moves ++ [(2, .call "a")])).gates.onFile.get? "a" = some 1 := by
  decide

end Precinct

end GatewayClient
