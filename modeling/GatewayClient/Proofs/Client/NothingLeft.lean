/-
No call leaves anything behind.  Whatever ends it, and wherever it is given up, its entry has gone
by then, it has been counted once as begun and once as ended, and the calls of others are as they
were.  A call whose frame the link refuses fails with that.
-/
import GatewayClient.Proofs.Client.Books
import GatewayClient.Proofs.Client.OwnStep

namespace GatewayClient

namespace Client

variable {c c₁ : Client} {i j : JobId} {m : Move} {call : Call} {stage stage' : CallStage}
  {id : UInt64} {slot : Nat} {account : Account}

/-- What the link does with the frame of a call that is about to bring it. -/
def sending? (c : Client) (i : JobId) (call : Call) : CallStage → Option SendStep
  | .entered id _ => some (c.offer i (requestFrame call id)).2
  | .crowded id _ => some (c.offerAgain i (requestFrame call id)).2
  | _ => none

/-- With its next step the call of job `i` returns a failure: an application is told it, and a
change fails with it. -/
inductive FailsWith (c : Client) (i : JobId) (f : Failure) : Prop where
  | call {call : Call} {expected : Expected} {stage : CallStage}
    (hjob : c.jobs.get? i = some (.call call expected stage))
    (hgone : (c.move (.advance i)).jobs.get? i = none)
    (htold : (c.move (.advance i)).finished = c.finished ++ [(i, .error f)])
  | change {change : Change} {stage : CallStage}
    (hwork : c.workAt i = some (.change change (.calling stage)))
    (hfails : (c.move (.advance i)).workAt i = some (.change change (.releasing (.error f))))

/-- In a run, no call leaves anything behind.  Every move opens an id, closes one under one account,
counts a stray reply, or leaves entries and tally alone; a call opens its id once, and when it has
its outcome or is no more, one move has closed it.  It leaves the calls of others alone. -/
structure LeavesNothing (c : Client) (moves : List Move) : Prop where
  booked : ∀ before m after, moves = before ++ m :: after → (c.run before).Booked m
  opened : ∀ before since i call id slot, moves = before ++ .advance i :: since →
    (c.run before).Enters (.advance i) i call id slot →
    (c.run before).Opens (.advance i) i id ∧ c.openings id moves = 1
  closed : ∀ before since i call id slot, moves = before ++ .advance i :: since →
    (c.run before).Enters (.advance i) i call id slot → ¬(c.run moves).Holds i id slot →
    (c.run moves).isOpen id = false ∧ c.closings id moves = 1 ∧
      ∃ mid m after account, since = mid ++ m :: after ∧
        (((c.run before).move (.advance i)).run mid).Closes m i id account
  apart : ∀ before m after i id slot, moves = before ++ m :: after →
    (c.run before).entryAt i = some (id, slot) → m = .advance i ∨ m = .drop i →
    (∀ other, other ≠ id →
      ((c.run before).move m).table.pending.get? other =
        (c.run before).table.pending.get? other) ∧
      ∀ j, j ≠ i → ((c.run before).move m).callAt j = (c.run before).callAt j ∧
        ∀ id' slot', (c.run before).entryAt j = some (id', slot') →
          ((c.run before).move m).table.slotAt slot' = (c.run before).table.slotAt slot'
  refused : ∀ before mid after i call stage,
    moves = before ++ .advance i :: (mid ++ after) →
    (c.run before).callAt i = some (call, stage) →
    (c.run before).sending? i call stage = some .failed → .advance i ∉ mid → .drop i ∉ mid →
    ∃ id slot, stage.entryOf? = some (id, slot) ∧
      (c.run (before ++ .advance i :: mid)).callAt i =
        some (call, .over id slot (.error .notConnected)) ∧
      (c.run (before ++ .advance i :: mid)).FailsWith i .notConnected

/-- A call enters the table with the next id and the next slot. -/
theorem Enters.register (h : c.Enters m i call id slot) (hnumbered : c.Numbered) :
    id = c.table.newId ∧ slot = c.table.slots.length ∧
      ∃ method timeout now, (c.move m).table = (c.table.register method timeout now).1 := by
  obtain ⟨-, hbefore, hafter, -⟩ := h
  cases callCase hnumbered m with
  | quiet hreply hseen | reply hreply hseen | sweep hm hreply hjob hseen =>
      rw [hseen.calls, hbefore] at hafter
      cases hafter
  | @step j call' stage₁ stage₂ table sent hm hreply hcall hstep hsent hseen =>
      by_cases hj : i = j
      · subst hj
        rw [hseen.own] at hafter
        cases hafter
        rcases hcall with ⟨rfl, -⟩ | hcall
        · cases hstep with
          | enter hparams => exact ⟨rfl, rfl, _, _, _, hseen.table⟩
        · rw [hbefore] at hcall
          cases hcall
      · rw [hseen.others i hj, hbefore] at hafter
        cases hafter
  | @leave j call' stage₁ id' slot' hm hreply hcall hentry hsent hseen =>
      by_cases hj : i = j
      · subst hj
        rw [hseen.own] at hafter
        cases hafter
      · rw [hseen.others i hj, hbefore] at hafter
        cases hafter

theorem Enters.opens (h : c.Enters m i call id slot) (hmatched : c.Matched)
    (hroom : (c.move m).table.slots.length < UInt64.size) : c.Opens m i id := by
  obtain ⟨rfl, -, method, timeout, now, htable⟩ := h.register hmatched.numbered
  exact .of_register hmatched hroom h.move_eq htable

theorem openings_append (c : Client) (id : UInt64) (first second : List Move) :
    c.openings id (first ++ second) =
      c.openings id first + (c.run first).openings id second := by
  induction first generalizing c with
  | nil => rw [List.nil_append, openings, Nat.zero_add, run_nil]
  | cons m rest ih => rw [List.cons_append, openings, openings, ih, run_cons, Nat.add_assoc]

/-- An id that a move opens is opened once in the run. -/
theorem Opens.openings_eq_one (hmatched : c.Matched) (hattended : c.Attended)
    {before after : List Move}
    (hroom : (c.run (before ++ m :: after)).table.slots.length < UInt64.size)
    (h : (c.run before).Opens m i id) : c.openings id (before ++ m :: after) = 1 := by
  have hcount := count_drawnIds_run hmatched hattended hroom id
  have honce := List.nodup_iff_count_le_one.mp (Table.nodup_drawnIds hroom) id
  have habsent : (c.run before).isOpen id = false := h.absent
  have hone : 1 ≤ c.openings id (before ++ m :: after) := by
    rw [openings_append, openings, habsent, h.isOpen]
    simp only [Bool.not_false, Bool.and_self, Bool.toNat_true]
    omega
  omega

/-- An id that a move has opened and that is open has been open since, as it is not drawn again. -/
theorem Opens.isOpen_since (h : c.Opens m i id) (hmatched : c.Matched) (hattended : c.Attended)
    {since : List Move} {m' : Move}
    (hroom : (((c.move m).run since).move m').table.slots.length < UInt64.size)
    (hopen : (((c.move m).run since).move m').isOpen id = true) :
    ((c.move m).run since).isOpen id = true := by
  cases hold : ((c.move m).run since).isOpen id with
  | true => rfl
  | false =>
      have honce : c.openings id ([] ++ m :: (since ++ [m'])) = 1 :=
        h.openings_eq_one hmatched hattended (by rwa [List.nil_append, run_cons, run_concat])
      rw [List.nil_append, openings, openings_append, openings, openings, hold, hopen,
        h.isOpen, show c.isOpen id = false from h.absent] at honce
      simp at honce

/-- A call that has entered the table holds its entry as long as its id has one. -/
theorem Enters.holds (h : c.Enters m i call id slot) (hmatched : c.Matched)
    (hattended : c.Attended) {since : List Move}
    (hroom : ((c.move m).run since).table.slots.length < UInt64.size)
    (hopen : ((c.move m).run since).isOpen id = true) :
    ((c.move m).run since).Holds i id slot := by
  have hnumbered := hmatched.numbered.move m
  induction since using List.reverseRecOn with
  | nil => exact ⟨call, _, h.after, rfl, rfl⟩
  | append_singleton since m' ih =>
      have hfirst := Nat.lt_of_le_of_lt (slots_length_le_run hnumbered since) <|
        Nat.lt_of_le_of_lt (slots_length_le_move (hnumbered.run since) m')
          (by rwa [run_concat] at hroom)
      rw [run_concat] at hroom hopen ⊢
      have hbefore := Nat.lt_of_le_of_lt (slots_length_le_move (hnumbered.run since) m') hroom
      have hstart := (hmatched.move m hfirst).run since hbefore
      have hheld := (hattended.move m).run since
      have hsince := (h.opens hmatched hfirst).isOpen_since hmatched hattended hroom hopen
      obtain ⟨call', stage, hcall, hentry, -⟩ := ih hbefore hsince
      have hat := (entryAt_of_callAt hcall).trans hentry
      obtain ⟨p, hget⟩ := Table.exists_get?_of_isPending hopen
      obtain ⟨j, hholds⟩ := (hheld.move m').held id p hget
      obtain ⟨hid, hmade⟩ := hstart.entry i id slot hat
      obtain ⟨hid', hmade'⟩ := (hstart.move m' hroom).entry j id p.slot hholds.entryAt
      have hle := slots_length_le_move (hnumbered.run since) m'
      obtain rfl : slot = p.slot :=
        Table.slotId_inj (by omega) (by omega) (hid.symm.trans hid')
      obtain ⟨call'', stage'', hcall'', hentry'', hover⟩ := hholds
      rcases callAt_of_move (hnumbered.run since) hcall'' hentry'' with
        ⟨stage₁, hcall₁, hentry₁⟩ | ⟨-, -, hlast⟩
      · obtain rfl := hstart.apart i j id id p.slot hat ((entryAt_of_callAt hcall₁).trans hentry₁)
        exact ⟨call'', stage'', hcall'', hentry'', hover⟩
      · omega

/-- An id that is open before a run and not after it is closed on the way. -/
theorem exists_closing {since : List Move} (hopen : c.isOpen id = true)
    (hclosed : (c.run since).isOpen id = false) :
    ∃ mid m after, since = mid ++ m :: after ∧ (c.run mid).isOpen id = true ∧
      ((c.run mid).move m).isOpen id = false := by
  induction since generalizing c with
  | nil =>
      rw [run_nil, hopen] at hclosed
      cases hclosed
  | cons m rest ih =>
      cases hnext : (c.move m).isOpen id with
      | false => exact ⟨[], m, rest, rfl, hopen, hnext⟩
      | true =>
          obtain ⟨mid, m', after, rfl, hmid, hafter⟩ := ih hnext hclosed
          exact ⟨m :: mid, m', after, rfl, hmid, hafter⟩

/-- A move after which an id is not open any more has closed it. -/
theorem Booked.closes_of (h : c.Booked m) (hopen : c.isOpen id = true)
    (hclosed : (c.move m).isOpen id = false) : ∃ i account, c.Closes m i id account := by
  have hkept : (c.move m).table.pending.get? id = c.table.pending.get? id → False := by
    intro hsame
    rw [isOpen_congr hsame, hopen] at hclosed
    cases hclosed
  cases h with
  | idle hentries => exact (hkept (by rw [hentries])).elim
  | stray _ _ _ hentries => exact (hkept (by rw [hentries])).elim
  | @opens i id' h =>
      by_cases heq : id' = id
      · subst heq
        rw [h.isOpen] at hclosed
        cases hclosed
      · obtain ⟨p, hentries⟩ := h.entries
        exact (hkept (by rw [hentries, Dictionary.get?_put_of_ne _ _ (Ne.symm heq)])).elim
  | @closes i id' account h =>
      by_cases heq : id' = id
      · subst heq
        exact ⟨i, account, h⟩
      · exact (hkept (by rw [h.entries, Dictionary.get?_erase_of_ne _ (Ne.symm heq)])).elim

/-- A call that does not hold its entry any more has had it closed by one move since. -/
theorem Enters.closed (h : c.Enters m i call id slot) (hmatched : c.Matched)
    (hattended : c.Attended) {since : List Move}
    (hroom : ((c.move m).run since).table.slots.length < UInt64.size)
    (hends : ¬((c.move m).run since).Holds i id slot) :
    ((c.move m).run since).isOpen id = false ∧
      ∃ mid m' after account, since = mid ++ m' :: after ∧
        ((c.move m).run mid).Closes m' i id account := by
  have hnumbered := hmatched.numbered.move m
  have hfirst := Nat.lt_of_le_of_lt (slots_length_le_run hnumbered since) hroom
  have hclosed : ((c.move m).run since).isOpen id = false := by
    rw [Bool.eq_false_iff]
    exact fun hopen => hends (h.holds hmatched hattended hroom hopen)
  refine ⟨hclosed, ?_⟩
  obtain ⟨mid, m', after, rfl, hmid, hafter⟩ :=
    exists_closing (h.opens hmatched hfirst).isOpen hclosed
  rw [run_append, run_cons] at hroom
  have hlast := Nat.lt_of_le_of_lt
    (slots_length_le_run ((hnumbered.run mid).move m') after) hroom
  have hbefore := Nat.lt_of_le_of_lt (slots_length_le_move (hnumbered.run mid) m') hlast
  have hstart := (hmatched.move m hfirst).run mid hbefore
  obtain ⟨j, account, hcloses⟩ :=
    (booked hstart ((hattended.move m).run mid) m' hlast).closes_of hmid hafter
  -- Whoever holds the entry that goes is the call that has entered under the id.
  obtain ⟨slot', hholds⟩ := hcloses.holds
  obtain rfl := hstart.eq_of_id hbefore hholds.entryAt
    (h.holds hmatched hattended hbefore hmid).entryAt
  exact ⟨mid, m', after, account, rfl, hcloses⟩

theorem CallStep.get?_of_ne {table : Table} {sent : List Json} {other : UInt64}
    (h : CallStep c call stage table sent stage') (hentry : stage.entryOf? = some (id, slot))
    (hne : other ≠ id) : table.pending.get? other = c.table.pending.get? other := by
  cases h with
  | enter hparams => cases hentry
  | hand | queue | miss | expire => rfl
  | take => rw [Table.pending_takeOutcome]
  | refuse hunsent hentry' =>
      rw [hentry] at hentry'
      cases hentry'
      rw [Table.get?_abandon, if_neg (Ne.symm hne)]
  | cancel =>
      cases hentry
      rw [Table.get?_cancel, if_neg (Ne.symm hne)]

/-- With a move of its own, a call leaves the calls of others alone. -/
theorem apart_of_own (h : c.Matched) (hroom : c.table.slots.length < UInt64.size)
    (hentry : c.entryAt i = some (id, slot)) (hm : m = .advance i ∨ m = .drop i) :
    (∀ other, other ≠ id →
      (c.move m).table.pending.get? other = c.table.pending.get? other) ∧
      ∀ j, j ≠ i → (c.move m).callAt j = c.callAt j ∧
        ∀ id' slot', c.entryAt j = some (id', slot') →
          (c.move m).table.slotAt slot' = c.table.slotAt slot' := by
  obtain ⟨⟨call, stage⟩, hcall, hat⟩ := Option.bind_eq_some_iff.mp hentry
  have hbusy : c.callAt i ≠ none := by
    rw [hcall]
    exact Option.some_ne_none _
  have hown : ∀ {j}, m = .advance j ∨ m = .drop j → j = i := by
    intro j hj
    rcases hm with rfl | rfl <;> rcases hj with hj | hj <;> cases hj <;> rfl
  cases callCase h.numbered m with
  | quiet hreply hseen =>
      rw [hseen.table]
      exact ⟨fun _ _ => rfl, fun j _ => ⟨hseen.calls j, fun _ _ _ => rfl⟩⟩
  | reply hreply hseen =>
      rcases hm with rfl | rfl
      · rw [replyIn?_advance] at hreply
        · cases hreply
        · exact fun hreceive => work?_ne_none_of_callAt hbusy hreceive rfl
      · cases hreply
  | sweep hm' hreply hjob hseen =>
      obtain rfl := hown (.inl hm')
      exact absurd rfl (work?_ne_none_of_callAt hbusy hjob)
  | @step j call' stage₁ stage₂ table sent hm' hreply hcall' hstep hsent hseen =>
      obtain rfl := hown (.inl hm')
      rcases hcall' with ⟨-, hnone⟩ | hcall'
      · exact absurd hnone hbusy
      · rw [hcall] at hcall'
        cases hcall'
        rw [hseen.table]
        refine ⟨fun other hne => hstep.get?_of_ne hat hne, fun k hk =>
          ⟨hseen.others k hk, fun id' slot' hk' => ?_⟩⟩
        exact h.slotAt_of_step hroom hk' (.inr hcall) hstep (Ne.symm hk)
  | @leave j call' stage₁ id₁ slot₁ hm' hreply hcall' hentry' hsent hseen =>
      obtain rfl := hown (hm'.imp And.left fun hm' => hm')
      have hat' := (entryAt_of_callAt hcall').trans hentry'
      rw [hentry] at hat'
      cases hat'
      rw [hseen.table]
      refine ⟨fun other hne => ?_, fun k hk => ⟨hseen.others k hk, fun id' slot' hk' => ?_⟩⟩
      · change (c.table.abandon id).1.pending.get? other = _
        rw [Table.get?_abandon, if_neg (Ne.symm hne)]
      · exact h.slotAt_of_leave hroom hk' hentry (Ne.symm hk)

/-- A call whose frame the link refuses is over with that. -/
theorem stepCall_of_refused (hsending : c.sending? i call stage = some .failed) :
    ∃ id slot c₁, stage.entryOf? = some (id, slot) ∧
      c.stepCall i call stage = .moved c₁ (.over id slot (.error .notConnected)) := by
  cases stage with
  | entered id slot =>
      rcases hoffer : c.offer i (requestFrame call id) with ⟨sender, step⟩
      rw [sending?, hoffer] at hsending
      cases hsending
      exact ⟨id, slot, sender.abandon id, rfl, by simp [stepCall, hoffer, sendCall, afterOffer]⟩
  | crowded id slot =>
      rcases hoffer : c.offerAgain i (requestFrame call id) with ⟨sender, step⟩
      rw [sending?, hoffer] at hsending
      cases hsending
      exact ⟨id, slot, sender.abandon id, rfl, by simp [stepCall, hoffer, sendCall, afterOffer]⟩
  | fresh | waiting | overdue | «over» => cases hsending

/-- A call that is over with a failure returns it. -/
theorem FailsWith.of_over {f : Failure}
    (hcall : c.callAt i = some (call, .over id slot (.error f))) : c.FailsWith i f := by
  rcases workAt_of_callAt hcall with hwork | ⟨change, hwork, rfl⟩
  · obtain ⟨expected, hget⟩ := get?_of_call hwork
    have hmove : c.move (.advance i) = (c.leaveEntry id slot).finish i (.error f) := by
      simp only [move, stepJob?, hget, stepCall, Option.getD_some]
      rfl
    refine .call hget ?_ ?_
    · rw [hmove]
      exact Dictionary.get?_erase_self _ _
    · rw [hmove]
      rfl
  · have hmoved : c.stepChange i change (.calling (.over id slot (.error f))) =
        .moved (c.leaveEntry id slot) (.releasing (.error f)) := rfl
    obtain ⟨job, hmove, hwork'⟩ := move_of_moved hwork hmoved
    have hafter : (c.move (.advance i)).jobs.get? i = some job := by
      rw [hmove]
      exact Dictionary.get?_put_self _ _ _
    exact .change hwork (workAt_of_work? hafter hwork' rfl)

/-- As long as fewer ids than there are words have been drawn, no call leaves anything behind,
however it ends. -/
theorem leaves_nothing (settings : Settings) (link : Link) (moves : List Move)
    (hdrawn : ((ofSettings settings link).run moves).table.slots.length < UInt64.size) :
    (ofSettings settings link).LeavesNothing moves := by
  have hstart := Matched.ofSettings settings link
  have hattended := Attended.ofSettings settings link
  have hdrawnAt : ∀ {before m after}, moves = before ++ m :: after →
      (((ofSettings settings link).run before).move m).table.slots.length < UInt64.size := by
    rintro before m after rfl
    rw [run_append, run_cons] at hdrawn
    exact Nat.lt_of_le_of_lt
      (slots_length_le_run ((hstart.numbered.run before).move m) after) hdrawn
  have hroomAt : ∀ {before m after}, moves = before ++ m :: after →
      ((ofSettings settings link).run before).table.slots.length < UInt64.size := fun {before m _}
      heq => Nat.lt_of_le_of_lt (slots_length_le_move (hstart.numbered.run before) m)
    (hdrawnAt heq)
  have hopens : ∀ {before since i call id slot}, moves = before ++ .advance i :: since →
      ((ofSettings settings link).run before).Enters (.advance i) i call id slot →
      ((ofSettings settings link).run before).Opens (.advance i) i id :=
    fun heq henters => henters.opens (hstart.run _ (hroomAt heq)) (hdrawnAt heq)
  have hopened : ∀ {before since i call id slot}, moves = before ++ .advance i :: since →
      ((ofSettings settings link).run before).Enters (.advance i) i call id slot →
      (ofSettings settings link).openings id moves = 1 := by
    rintro before since i call id slot heq henters
    have hopen := hopens heq henters
    subst heq
    exact hopen.openings_eq_one hstart hattended hdrawn
  refine ⟨?_, ?_, ?_, ?_, ?_⟩
  · intro before m after heq
    exact booked (hstart.run before (hroomAt heq)) (hattended.run before) m (hdrawnAt heq)
  · intro before since i call id slot heq henters
    exact ⟨hopens heq henters, hopened heq henters⟩
  · intro before since i call id slot heq henters hends
    have honce := hopened heq henters
    have hmatched := hstart.run before (hroomAt heq)
    subst heq
    have hbalance := openings_eq (ofSettings settings link) id (before ++ .advance i :: since)
    rw [run_append, run_cons] at hdrawn hends hbalance ⊢
    obtain ⟨hclosed, hcloses⟩ := henters.closed hmatched (hattended.run before) hdrawn hends
    refine ⟨hclosed, ?_, hcloses⟩
    rw [honce, hclosed, show (ofSettings settings link).isOpen id = false from rfl] at hbalance
    exact hbalance.symm
  · intro before m after i id slot heq hentry hm
    exact apart_of_own (hstart.run before (hroomAt heq)) (hroomAt heq) hentry hm
  · intro before mid after i call stage _ hcall hsending hadvance hdrop
    obtain ⟨id, slot, c₁, hentry, hmoved⟩ := stepCall_of_refused hsending
    have hover := callAt_of_moved hcall hmoved
    have hlater : ((ofSettings settings link).run (before ++ .advance i :: mid)).callAt i =
        some (call, .over id slot (.error .notConnected)) := by
      rw [run_append, run_cons,
        callAt_run_of_others ((hstart.numbered.run before).move _) hadvance hdrop, hover]
    exact ⟨id, slot, hentry, hlater, .of_over hlater⟩

/-- A call that is given up while its frame waits for room has been opened once and closed once. -/
theorem leaves_nothing_dropped :
    let call (method : String) : Move := .begin (.call ⟨method, some (.object []), none⟩ .nothing)
    let moves : List Move :=
      [call "device.name", call "device.model", .advance 0, .advance 0, .advance 1, .advance 1,
        .drop 1]
    let client := ofSettings {} (.channel { capacity := 1 })
    (client.run moves).table.slots.length < UInt64.size ∧
      (client.run moves).table.tally = ⟨2, 0, 0, 1, 0⟩ ∧
      client.openings 2 moves = 1 ∧ client.closings 2 moves = 1 ∧ client.LeavesNothing moves :=
  ⟨by decide, by decide, by decide, by decide,
    leaves_nothing {} (.channel { capacity := 1 }) _ (by decide)⟩

end Client

end GatewayClient
