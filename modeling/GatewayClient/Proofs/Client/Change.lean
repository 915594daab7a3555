/-
What the steps of a change do.  A change goes through its gate, may call the platform, and lets go
of the gate; between these, only its call touches the table and the frames sent.
-/
import GatewayClient.Proofs.Client.Call

namespace GatewayClient

namespace Client

/-- What an unsubscription does on going through its gate: nothing if the event has no such
listener, and otherwise the event keeps its other listeners or, without any, is no longer on file.
-/
inductive DetachCase (c : Client) (event : String) (id : UInt64) : Prop
  | unknown
    (hkept : (c.listenersOf event).filter (fun entry => entry.1 != id) = c.listenersOf event)
    (henter : c.enterChange (.unsubscribe event id) = (c, .releasing (.ok .detached)))
  | last (hkept : (c.listenersOf event).filter (fun entry => entry.1 != id) = [])
    (hsome : c.listenersOf event ≠ [])
    (henter : c.enterChange (.unsubscribe event id) =
      ({ c with events := c.events.erase event }, .calling .fresh))
  | others (hkept : (c.listenersOf event).filter (fun entry => entry.1 != id) ≠ [])
    (henter : c.enterChange (.unsubscribe event id) =
      ({ c with
          events := c.events.put event ((c.listenersOf event).filter fun entry => entry.1 != id) },
        .releasing (.ok .detached)))

theorem detachCase (c : Client) (event : String) (id : UInt64) : DetachCase c event id := by
  by_cases hlength : ((c.listenersOf event).filter fun entry => entry.1 != id).length =
      (c.listenersOf event).length
  · refine .unknown (List.filter_sublist.eq_of_length hlength) ?_
    simp only [enterChange, detach?, hlength, ↓reduceIte]
  · cases hempty : ((c.listenersOf event).filter fun entry => entry.1 != id).isEmpty with
    | true =>
        refine .last (List.isEmpty_iff.mp hempty) ?_ ?_
        · intro hnil
          rw [hnil] at hlength
          exact hlength rfl
        · simp only [enterChange, detach?, hlength, hempty, ↓reduceIte]
    | false =>
        refine .others (fun hnil => ?_) ?_
        · rw [hnil] at hempty
          cases hempty
        · simp only [enterChange, detach?, hlength, hempty, Bool.false_eq_true, ↓reduceIte]

/-- Going through its gate, a change touches who listens and who provides. -/
theorem enterChange_eq (c : Client) (change : Change) :
    ∃ events nextListener providers, (c.enterChange change).1 =
      { c with events := events, nextListener := nextListener, providers := providers } := by
  cases change with
  | subscribe event listener =>
      rw [enterChange]
      split <;> exact ⟨_, _, _, rfl⟩
  | unsubscribe event id =>
      cases detachCase c event id with
      | unknown _ henter | last _ _ henter | others _ henter =>
          rw [henter]
          exact ⟨_, _, _, rfl⟩
  | provide event handler =>
      rw [enterChange]
      split <;> exact ⟨_, _, _, rfl⟩
  | revoke event =>
      rw [enterChange]
      split <;> exact ⟨_, _, _, rfl⟩

/-- Once a change is through its gate, it begins to call the platform, or it is done. -/
theorem enterChange_stage (c : Client) (change : Change) :
    (c.enterChange change).2 = .calling .fresh ∨
      ∃ changed, (c.enterChange change).2 = .releasing (.ok changed) := by
  cases change with
  | subscribe event listener =>
      rw [enterChange]
      split
      · exact Or.inr ⟨_, rfl⟩
      · exact Or.inl rfl
  | unsubscribe event id =>
      cases detachCase c event id with
      | last _ _ henter => exact Or.inl (congrArg Prod.snd henter)
      | unknown _ henter | others _ henter => exact Or.inr ⟨_, congrArg Prod.snd henter⟩
  | provide event handler =>
      rw [enterChange]
      split
      · exact Or.inr ⟨_, rfl⟩
      · exact Or.inl rfl
  | revoke event =>
      rw [enterChange]
      split
      · exact Or.inl rfl
      · exact Or.inr ⟨_, rfl⟩

/-- `c'` is `c` apart from the gates, who listens, who provides, and who is ready. -/
def Rearranges (c c' : Client) : Prop :=
  ∃ events nextListener eventGates providers providerGates ready,
    c' = { c with
      events := events, nextListener := nextListener, eventGates := eventGates,
      providers := providers, providerGates := providerGates, ready := ready }

namespace Rearranges

variable {c c₁ c' : Client}

theorem trans (h : c.Rearranges c₁) (h' : c₁.Rearranges c') : c.Rearranges c' := by
  obtain ⟨_, _, _, _, _, _, rfl⟩ := h
  obtain ⟨_, _, _, _, _, _, rfl⟩ := h'
  exact ⟨_, _, _, _, _, _, rfl⟩

theorem refl (c : Client) : c.Rearranges c :=
  ⟨_, _, _, _, _, _, rfl⟩

theorem table (h : c.Rearranges c') : c'.table = c.table := by
  obtain ⟨_, _, _, _, _, _, rfl⟩ := h
  rfl

theorem sent (h : c.Rearranges c') : c'.sent = c.sent := by
  obtain ⟨_, _, _, _, _, _, rfl⟩ := h
  rfl

theorem wakeOption (c : Client) (next : Option JobId) : c.Rearranges (c.wakeOption next) := by
  obtain ⟨ready, heq⟩ := c.wakeOption_eq next
  rw [heq]
  exact ⟨_, _, _, _, _, _, rfl⟩

theorem setGatesOf (c : Client) (change : Change) (gates : Gates) :
    c.Rearranges (c.setGatesOf change gates) := by
  cases change <;> exact ⟨_, _, _, _, _, _, rfl⟩

theorem leaveGate (c : Client) (i : JobId) (change : Change) :
    c.Rearranges (c.leaveGate i change) :=
  (setGatesOf c change _).trans (wakeOption _ _)

theorem enterChange (c : Client) (change : Change) : c.Rearranges (c.enterChange change).1 := by
  obtain ⟨events, nextListener, providers, heq⟩ := c.enterChange_eq change
  rw [heq]
  exact ⟨_, _, _, _, _, _, rfl⟩

theorem settleChange (c : Client) (change : Change) : c.Rearranges (c.settleChange change).1 := by
  cases change <;> exact ⟨_, _, _, _, _, _, rfl⟩

end Rearranges

/-- `c'` is `c` apart from what a call or a change may touch. -/
def Acts (c c' : Client) : Prop :=
  ∃ table link sent events nextListener eventGates providers providerGates ready,
    c' = { c with
      table := table, link := link, sent := sent, events := events, nextListener := nextListener,
      eventGates := eventGates, providers := providers, providerGates := providerGates,
      ready := ready }

namespace Acts

variable {c c₁ c' : Client}

theorem trans (h : c.Acts c₁) (h' : c₁.Acts c') : c.Acts c' := by
  obtain ⟨_, _, _, _, _, _, _, _, _, rfl⟩ := h
  obtain ⟨_, _, _, _, _, _, _, _, _, rfl⟩ := h'
  exact ⟨_, _, _, _, _, _, _, _, _, rfl⟩

theorem jobs (h : c.Acts c') : c'.jobs = c.jobs := by
  obtain ⟨_, _, _, _, _, _, _, _, _, rfl⟩ := h
  rfl

theorem nextJob (h : c.Acts c') : c'.nextJob = c.nextJob := by
  obtain ⟨_, _, _, _, _, _, _, _, _, rfl⟩ := h
  rfl

theorem settings (h : c.Acts c') : c'.settings = c.settings := by
  obtain ⟨_, _, _, _, _, _, _, _, _, rfl⟩ := h
  rfl

theorem later (h : c.Acts c') : Later c c' := by
  obtain ⟨_, _, _, _, _, _, _, _, _, rfl⟩ := h
  exact .of_eq rfl rfl

theorem workAt (h : c.Acts c') (i : JobId) : c'.workAt i = c.workAt i :=
  workAt_congr (by rw [h.jobs])

theorem ofHands {table : Table} {sent : List Json} (h : c.Hands table sent c') : c.Acts c' := by
  obtain ⟨link, ready, rfl⟩ := h
  exact ⟨_, _, _, _, _, _, _, _, _, rfl⟩

theorem ofRearranges (h : c.Rearranges c') : c.Acts c' := by
  obtain ⟨_, _, _, _, _, _, rfl⟩ := h
  exact ⟨_, _, _, _, _, _, _, _, _, rfl⟩

theorem stepCall {i : JobId} {call : Call} {stage stage' : CallStage}
    (hmoved : c.stepCall i call stage = .moved c' stage') : c.Acts c' := by
  obtain ⟨table, sent, -, hhands⟩ := stepCall_moved hmoved
  exact ofHands hhands

theorem stepCall_over {i : JobId} {call : Call} {stage : CallStage} {outcome : Outcome}
    (hover : c.stepCall i call stage = .over c' outcome) : c.Acts c' := by
  obtain ⟨table, hhands⟩ := hands_of_over hover
  exact ofHands hhands

theorem dropCall (c : Client) (i : JobId) (stage : CallStage) : c.Acts (c.dropCall i stage) := by
  obtain ⟨table, hhands⟩ := c.hands_dropCall i stage
  exact ofHands hhands

end Acts

/-- A change that is given up outside its call only rearranges. -/
theorem rearranges_dropChange (c : Client) (i : JobId) (change : Change) {stage : ChangeStage}
    (hstage : ∀ call, stage ≠ .calling call) : c.Rearranges (c.dropChange i change stage) := by
  cases stage with
  | fresh => exact .refl c
  | referring => exact (Rearranges.setGatesOf c change _).trans (.wakeOption _ _)
  | atGate => exact (Rearranges.setGatesOf c change _).trans (.wakeOption _ _)
  | calling stage => exact absurd rfl (hstage stage)
  | releasing result => exact .leaveGate c i change
  | pruning result => exact .setGatesOf c change _

theorem Acts.dropChange (c : Client) (i : JobId) (change : Change) (stage : ChangeStage) :
    c.Acts (c.dropChange i change stage) := by
  cases stage with
  | calling stage => exact (dropCall c i stage).trans (ofRearranges (.leaveGate _ i change))
  | fresh | referring | atGate | releasing | pruning =>
      exact ofRearranges (rearranges_dropChange c i change fun _ => ChangeStage.noConfusion)

/-- One step of a change: the client after it and the stage that is reached. -/
inductive ChangeStep (c : Client) (i : JobId) (change : Change) :
    ChangeStage → Client → ChangeStage → Prop where
  | refer :
    ChangeStep c i change .fresh
      (c.setGatesOf change ((c.gatesOf change).refer change.event i)) .referring
  | join :
    ChangeStep c i change .referring (c.setGatesOf change ((c.gatesOf change).join i)) .atGate
  | enter (howns : (c.gatesOf change).owns i = true) :
    ChangeStep c i change .atGate (c.enterChange change).1 (c.enterChange change).2
  | call {stage stage' : CallStage} {c' : Client}
    (hmoved : c.stepCall i (c.changeCall change) stage = .moved c' stage') :
    ChangeStep c i change (.calling stage) c' (.calling stage')
  | settle {stage : CallStage} {c' : Client} {value : Json}
    (hover : c.stepCall i (c.changeCall change) stage = .over c' (.ok value)) :
    ChangeStep c i change (.calling stage) (c'.settleChange change).1
      (.releasing (.ok (c'.settleChange change).2))
  | fail {stage : CallStage} {c' : Client} {f : Failure}
    (hover : c.stepCall i (c.changeCall change) stage = .over c' (.error f)) :
    ChangeStep c i change (.calling stage) c' (.releasing (.error f))
  | release {result : Except Failure Changed} :
    ChangeStep c i change (.releasing result)
      ((c.setGatesOf change ((c.gatesOf change).release i).1).wakeOption
        ((c.gatesOf change).release i).2)
      (.pruning result)

/-- What a step of a change can be. -/
theorem stepChange_moved {c c' : Client} {i : JobId} {change : Change} {stage stage' : ChangeStage}
    (hmoved : c.stepChange i change stage = .moved c' stage') :
    ChangeStep c i change stage c' stage' := by
  cases stage with
  | fresh => cases hmoved; exact .refer
  | referring => cases hmoved; exact .join
  | atGate =>
      rw [stepChange] at hmoved
      split at hmoved
      · next howns => cases hmoved; exact .enter howns
      · cases hmoved
  | calling stage =>
      rw [stepChange] at hmoved
      split at hmoved
      · cases hmoved
      · next hstep => cases hmoved; exact .call hstep
      · next hstep => cases hmoved; exact .settle hstep
      · next hstep => cases hmoved; exact .fail hstep
  | releasing result => cases hmoved; exact .release
  | pruning result => cases hmoved

/-- A change cannot go on while another has its gate, or while its call cannot. -/
theorem stepChange_blocked {c : Client} {i : JobId} {change : Change} {stage : ChangeStage}
    (hblocked : c.stepChange i change stage = .blocked) :
    (stage = .atGate ∧ (c.gatesOf change).owns i = false) ∨
      ∃ stage', stage = .calling stage' ∧
        c.stepCall i (c.changeCall change) stage' = .blocked := by
  cases stage with
  | fresh => cases hblocked
  | referring => cases hblocked
  | atGate =>
      rw [stepChange] at hblocked
      split at hblocked
      · cases hblocked
      · next howns => exact Or.inl ⟨rfl, Bool.eq_false_iff.mpr howns⟩
  | calling stage =>
      rw [stepChange] at hblocked
      split at hblocked
      · next hstep => exact Or.inr ⟨stage, rfl, hstep⟩
      · cases hblocked
      · cases hblocked
      · cases hblocked
  | releasing result => cases hblocked
  | pruning result => cases hblocked

/-- A change is over when it has pruned its gate. -/
theorem stepChange_over {c c' : Client} {i : JobId} {change : Change} {stage : ChangeStage}
    {result : Except Failure Changed} (hover : c.stepChange i change stage = .over c' result) :
    stage = .pruning result ∧
      c' = c.setGatesOf change ((c.gatesOf change).prune change.event i) := by
  cases stage with
  | fresh => cases hover
  | referring => cases hover
  | atGate =>
      rw [stepChange] at hover
      split at hover <;> cases hover
  | calling stage =>
      rw [stepChange] at hover
      split at hover <;> cases hover
  | releasing result => cases hover
  | pruning result' =>
      cases hover
      exact ⟨rfl, rfl⟩

namespace ChangeStep

variable {c c' : Client} {i : JobId} {change : Change} {stage stage' : ChangeStage}

theorem ne_fresh (h : ChangeStep c i change stage c' stage') : stage' ≠ .fresh := by
  cases h with
  | enter howns =>
      rcases c.enterChange_stage change with hstage | ⟨changed, hstage⟩ <;>
        exact hstage ▸ ChangeStage.noConfusion
  | refer | join | call | settle | fail | release => exact ChangeStage.noConfusion

theorem acts (h : ChangeStep c i change stage c' stage') : c.Acts c' := by
  cases h with
  | refer => exact .ofRearranges (.setGatesOf c change _)
  | join => exact .ofRearranges (.setGatesOf c change _)
  | enter howns => exact .ofRearranges (.enterChange c change)
  | call hmoved => exact .stepCall hmoved
  | settle hover =>
      exact (Acts.stepCall_over hover).trans (.ofRearranges (.settleChange _ change))
  | fail hover => exact .stepCall_over hover
  | release =>
      exact .ofRearranges ((Rearranges.setGatesOf c change _).trans (.wakeOption _ _))

end ChangeStep

end Client

end GatewayClient
