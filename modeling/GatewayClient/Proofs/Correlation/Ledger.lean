/-
The tally of a table is a ledger: what was registered is either still pending or was counted once,
under what became of it.  Outcomes for ids that nobody waits under are counted as discarded too, so
their number stands on the other side of the balance.
-/
import GatewayClient.Proofs.Correlation.Trial

namespace GatewayClient

/-- What can become of a call. -/
inductive Account where
  | resolved
  | timeouts
  | cancelled
  | discarded
deriving DecidableEq, Repr

/-- The tally with so many more counted under what became of them, and nothing else changed. -/
def Tally.credit (t : Tally) (n : UInt64) : Account → Tally
  | .resolved => { t with resolved := t.resolved + n }
  | .timeouts => { t with timeouts := t.timeouts + n }
  | .cancelled => { t with cancelled := t.cancelled + n }
  | .discarded => { t with discarded := t.discarded + n }

/-- All that was counted under what became of it. -/
def Tally.closed (t : Tally) : UInt64 :=
  t.resolved + t.timeouts + t.cancelled + t.discarded

@[simp] theorem Tally.registered_credit (t : Tally) (n : UInt64) (account : Account) :
    (t.credit n account).registered = t.registered := by
  cases account <;> rfl

@[simp] theorem Tally.closed_credit (t : Tally) (n : UInt64) (account : Account) :
    (t.credit n account).closed = t.closed + n := by
  cases account <;> simp only [closed, credit] <;> grind

theorem Tally.credit_zero (t : Tally) (account : Account) : t.credit 0 account = t := by
  cases account <;> simp [credit]

theorem Tally.credit_credit (t : Tally) (m n : UInt64) (account : Account) :
    (t.credit m account).credit n account = t.credit (m + n) account := by
  cases account <;> simp [credit, UInt64.add_assoc]

theorem Tally.credit_comm (t : Tally) (m n : UInt64) (account other : Account) :
    (t.credit m account).credit n other = (t.credit n other).credit m account := by
  cases account <;> cases other <;> simp [credit, UInt64.add_assoc, UInt64.add_comm m]

namespace Table

/-- Removing an entry takes one away, if it is there. -/
theorem pendingCount_conclude {t : Table} (h : t.WellFormed) {id : UInt64} {call : PendingCall}
    (hget : t.pending.get? id = some call) (change : Slot → Slot) :
    (t.conclude id change).pendingCount + 1 = t.pendingCount := by
  rw [conclude_of_some hget]
  exact Dictionary.length_erase_of_mem h.ids_nodup ((Dictionary.mem_keys _ _).mpr ⟨call, hget⟩)

theorem pendingCount_register {t : Table} (hroom : t.pendingCount < UInt64.size) (method : String)
    (timeout : Option Nat) (now : Nat) :
    (t.register method timeout now).1.pendingCount = t.pendingCount + 1 :=
  Dictionary.length_put_of_not_mem (newId_not_mem hroom) _

/-- To end a call by its deadline takes its entry away and counts one timeout, if it is there. -/
theorem cancel_ledger {t : Table} (h : t.WellFormed) (id : UInt64) :
    (t.cancel id).1.pendingCount + (t.cancel id).2.toNat = t.pendingCount ∧
      (t.cancel id).1.tally = t.tally.credit (UInt64.ofNat (t.cancel id).2.toNat) .timeouts := by
  cases hget : t.pending.get? id with
  | none =>
      rw [cancel, hget]
      exact ⟨rfl, (Tally.credit_zero _ _).symm⟩
  | some call =>
      have hcount := pendingCount_conclude h hget (·.fill (.error .timeout))
      rw [conclude_of_some hget] at hcount
      rw [cancel, hget]
      exact ⟨hcount, rfl⟩

theorem abandon_ledger {t : Table} (h : t.WellFormed) (id : UInt64) :
    (t.abandon id).1.pendingCount + (t.abandon id).2.toNat = t.pendingCount ∧
      (t.abandon id).1.tally = t.tally.credit (UInt64.ofNat (t.abandon id).2.toNat) .cancelled := by
  cases hget : t.pending.get? id with
  | none =>
      rw [abandon, hget]
      exact ⟨rfl, (Tally.credit_zero _ _).symm⟩
  | some call =>
      have hcount := pendingCount_conclude h hget Slot.close
      rw [conclude_of_some hget] at hcount
      rw [abandon, hget]
      exact ⟨hcount, rfl⟩

/-- To give an outcome takes the entry away, if it is there, and counts one in any case. -/
theorem resolve_ledger {t : Table} (h : t.WellFormed) (id : UInt64) (outcome : Outcome) :
    (t.resolve id outcome).1.pendingCount + (t.isPending id).toNat = t.pendingCount ∧
      (t.resolve id outcome).1.tally =
        t.tally.credit 1 (if (t.resolve id outcome).2 then .resolved else .discarded) := by
  rw [isPending, Dictionary.contains]
  cases hget : t.pending.get? id with
  | none =>
      rw [resolve, hget]
      exact ⟨rfl, rfl⟩
  | some call =>
      have hcount := pendingCount_conclude h hget (·.fill outcome)
      rw [conclude_of_some hget] at hcount
      rw [resolve, hget]
      cases hlistening : t.isListening call.slot <;> simp only [hlistening] <;>
        exact ⟨hcount, rfl⟩

theorem removeIfExpired_ledger {t : Table} (h : t.WellFormed) (now : Nat) (id : UInt64) :
    (t.removeIfExpired now id).1.pendingCount + (t.removeIfExpired now id).2.toNat =
        t.pendingCount ∧
      (t.removeIfExpired now id).1.tally =
        t.tally.credit (UInt64.ofNat (t.removeIfExpired now id).2.toNat) .timeouts := by
  cases hexpired : t.hasExpired now id with
  | true =>
      rw [removeIfExpired_of_expired hexpired]
      exact cancel_ledger h id
  | false =>
      rw [removeIfExpired_of_not_expired hexpired]
      exact ⟨rfl, (Tally.credit_zero _ _).symm⟩

/-- A sweep through some ids counts a timeout for each entry that it takes away. -/
theorem removeAllExpired_ledger {t : Table} (h : t.WellFormed) (now : Nat) (ids : List UInt64) :
    (t.removeAllExpired now ids).1.pendingCount + (t.removeAllExpired now ids).2 = t.pendingCount ∧
      (t.removeAllExpired now ids).1.tally =
        t.tally.credit (UInt64.ofNat (t.removeAllExpired now ids).2) .timeouts := by
  induction ids generalizing t with
  | nil => exact ⟨rfl, (Tally.credit_zero _ _).symm⟩
  | cons id ids ih =>
      obtain ⟨hcount, htally⟩ := removeIfExpired_ledger h now id
      obtain ⟨hrest, hrestTally⟩ := ih (h.removeIfExpired now id)
      have hremoved : (t.removeAllExpired now (id :: ids)).2 =
          (t.removeIfExpired now id).2.toNat +
            ((t.removeIfExpired now id).1.removeAllExpired now ids).2 := by
        rw [removeAllExpired_cons]
        cases (t.removeIfExpired now id).2 <;> simp [Nat.add_comm]
      have htable : (t.removeAllExpired now (id :: ids)).1 =
          ((t.removeIfExpired now id).1.removeAllExpired now ids).1 := by
        rw [removeAllExpired_cons]
      rw [hremoved, htable]
      constructor
      · omega
      · rw [hrestTally, htally, Tally.credit_credit, UInt64.ofNat_add]

end Table

namespace Trial

/-- How many outcomes an action brings for an id that nobody waits under. -/
def stray (t : Trial) : Action → Nat
  | .resolve id _ => (!t.table.isPending id).toNat
  | _ => 0

/-- How many outcomes some actions bring for ids that nobody waits under. -/
def strays (t : Trial) : List Action → Nat
  | [] => 0
  | action :: rest => t.stray action + strays (t.perform action).1 rest

/-- The ids whose entries leave the table with an action. -/
def leaving (t : Trial) (action : Action) : List UInt64 :=
  t.table.pendingIds.filter fun id => !(t.perform action).1.table.isPending id

/-- Where an action counts the calls that it ends, by what it says. -/
def Action.account (reply : Reply) : Action → Account
  | .resolve _ _ => if reply = .truth true then .resolved else .discarded
  | .abandon _ => .cancelled
  | _ => .timeouts

/-- The tally after an action has entered a call, if it does. -/
def entered (t : Trial) : Action → Tally
  | .register _ _ => { t.table.tally with registered := t.table.tally.registered + 1 }
  | _ => t.table.tally

/-- An entry that was there before an action either leaves with it or stays. -/
theorem length_leaving {t : Trial} (h : t.Sound) (action : Action) (hreturns : t.Returns action)
    (hregister : ∀ method timeout, action ≠ .register method timeout) :
    (t.perform action).1.table.pendingCount + (t.leaving action).length = t.table.pendingCount := by
  have hids := (h.perform hreturns).table.ids_nodup
  have hstay : ((t.table.pendingIds.filter fun id => (t.perform action).1.table.isPending id)).Perm
      (t.perform action).1.table.pendingIds := by
    apply (List.perm_ext_iff_of_nodup (h.table.ids_nodup.filter _) hids).mpr
    intro id
    rw [List.mem_filter, Table.isPending, Dictionary.contains_iff]
    refine ⟨And.right, fun hmem => ⟨?_, hmem⟩⟩
    obtain ⟨call, hget⟩ := (Dictionary.mem_keys _ _).mp hmem
    exact (Dictionary.mem_keys _ _).mpr ⟨call, (fewer_perform t hregister).2.1 id call hget⟩
  have hsplit := List.length_eq_length_filter_add
    (l := t.table.pendingIds) fun id => (t.perform action).1.table.isPending id
  rw [hstay.length_eq] at hsplit
  have hbefore : t.table.pendingIds.length = t.table.pendingCount := Dictionary.length_keys _
  have hafter : (t.perform action).1.table.pendingIds.length =
      (t.perform action).1.table.pendingCount := Dictionary.length_keys _
  rw [leaving]
  omega

theorem leaving_register {t : Trial} (method : String) (timeout : Option Nat) :
    t.leaving (.register method timeout) = [] := by
  apply List.filter_eq_nil_iff.mpr
  intro id hmem
  obtain ⟨call, hget⟩ := (Dictionary.mem_keys _ _).mp hmem
  have hstays : (t.perform (.register method timeout)).1.table.isPending id = true := by
    apply Option.isSome_iff_exists.mpr
    change ∃ call, (t.table.register method timeout t.now).1.pending.get? id = some call
    rw [Table.get?_register]
    split
    · exact ⟨_, rfl⟩
    · exact ⟨call, hget⟩
  simp [hstays]

/-- A sweep says how many entries leave with it. -/
theorem length_leaving_sweep {t : Trial} (h : t.Sound) :
    (t.leaving .sweep).length = (t.table.removeExpired t.now).2 := by
  have hcount := (Table.removeAllExpired_ledger h.table t.now (t.table.expiredIds t.now)).1
  have hlength := length_leaving h .sweep trivial fun _ _ => Action.noConfusion
  change (t.table.removeExpired t.now).1.pendingCount + _ = _ at hlength
  rw [Table.removeExpired] at hlength ⊢
  omega

/-- An action that leaves entries and tally alone counts nothing. -/
theorem ledger_of_unchanged {t : Trial} (h : t.Sound) {action : Action}
    (hreturns : t.Returns action)
    (hregister : ∀ method timeout, action ≠ .register method timeout)
    (hpending : (t.perform action).1.table.pending = t.table.pending)
    (htally : (t.perform action).1.table.tally = t.table.tally) (account : Account) :
    (t.perform action).1.table.tally =
      t.table.tally.credit (UInt64.ofNat ((t.leaving action).length + 0)) account := by
  have hlength := length_leaving h action hreturns hregister
  have hnone : (t.leaving action).length = 0 := by
    rw [Table.pendingCount, hpending, Table.pendingCount] at hlength
    omega
  rw [htally, hnone]
  exact (Tally.credit_zero _ _).symm

/-- Every entry that leaves with an action is counted once, under the action's account, and so is an
outcome that the action brings for nobody; nothing else is counted but the call that it enters. -/
theorem ledger_perform {t : Trial} (h : t.Sound) {action : Action} (hreturns : t.Returns action) :
    (t.perform action).1.table.tally =
      (t.entered action).credit
        (UInt64.ofNat ((t.leaving action).length + t.stray action))
        (action.account (t.perform action).2) := by
  cases action with
  | register method timeout =>
      rw [leaving_register]
      exact (Tally.credit_zero _ _).symm
  | resolve id outcome =>
      obtain ⟨hcount, htally⟩ := Table.resolve_ledger h.table id outcome
      have hlength := length_leaving h _ hreturns fun _ _ => Action.noConfusion
      have hone : (t.leaving (.resolve id outcome)).length + t.stray (.resolve id outcome) = 1 := by
        have hleft : (t.leaving (.resolve id outcome)).length = (t.table.isPending id).toNat := by
          change (t.table.resolve id outcome).1.pendingCount + _ = _ at hlength
          omega
        rw [hleft, stray]
        cases t.table.isPending id <;> rfl
      rw [hone]
      apply htally.trans
      change _ = t.table.tally.credit 1
        (if Reply.truth (t.table.resolve id outcome).2 = .truth true then _ else _)
      simp only [Reply.truth.injEq]
  | cancel id =>
      obtain ⟨hcount, htally⟩ := Table.cancel_ledger h.table id
      have hlength := length_leaving h _ hreturns fun _ _ => Action.noConfusion
      have hleft : (t.leaving (.cancel id)).length = (t.table.cancel id).2.toNat := by
        change (t.table.cancel id).1.pendingCount + _ = _ at hlength
        omega
      rw [hleft]
      exact htally
  | abandon id =>
      obtain ⟨hcount, htally⟩ := Table.abandon_ledger h.table id
      have hlength := length_leaving h _ hreturns fun _ _ => Action.noConfusion
      have hleft : (t.leaving (.abandon id)).length = (t.table.abandon id).2.toNat := by
        change (t.table.abandon id).1.pendingCount + _ = _ at hlength
        omega
      rw [hleft]
      exact htally
  | sweep =>
      rw [length_leaving_sweep h]
      exact (Table.removeAllExpired_ledger h.table t.now (t.table.expiredIds t.now)).2
  | receive id =>
      refine ledger_of_unchanged h hreturns (fun _ _ => Action.noConfusion) ?_ ?_ _
      · exact pending_receive _ _ _
      · exact tally_receive _ _ _
  | dropReceiver id =>
      refine ledger_of_unchanged h hreturns (fun _ _ => Action.noConfusion) ?_ ?_ _ <;>
        (rw [perform]; split <;> rfl)
  | isPending id => exact ledger_of_unchanged h hreturns (fun _ _ => Action.noConfusion) rfl rfl _
  | sleep ms => exact ledger_of_unchanged h hreturns (fun _ _ => Action.noConfusion) rfl rfl _
  | defaultTimeout =>
      exact ledger_of_unchanged h hreturns (fun _ _ => Action.noConfusion) rfl rfl _

/-- What has been registered and what came for nobody is pending or was counted.  The counters are
words, so this is an equation of words. -/
def Balanced (t : Trial) (strays : Nat) : Prop :=
  t.table.tally.registered + UInt64.ofNat strays =
    UInt64.ofNat t.table.pendingCount + t.table.tally.closed

theorem Balanced.perform {t : Trial} {strays : Nat} (hbalanced : t.Balanced strays) (h : t.Sound)
    {action : Action} (hreturns : t.Returns action) :
    (t.perform action).1.Balanced (strays + t.stray action) := by
  rw [Balanced] at hbalanced ⊢
  rw [ledger_perform h hreturns, Tally.registered_credit, Tally.closed_credit, UInt64.ofNat_add,
    UInt64.ofNat_add]
  by_cases hregister : ∃ method timeout, action = .register method timeout
  · obtain ⟨method, timeout, rfl⟩ := hregister
    have hcount : (t.perform (.register method timeout)).1.table.pendingCount =
        t.table.pendingCount + 1 := Table.pendingCount_register hreturns method timeout t.now
    rw [hcount, leaving_register, UInt64.ofNat_add]
    change t.table.tally.registered + 1 + _ = _ + (t.table.tally.closed + _)
    simp only [List.length_nil, stray, UInt64.reduceOfNat]
    grind
  · have hother : ∀ method timeout, action ≠ .register method timeout :=
      fun method timeout heq => hregister ⟨method, timeout, heq⟩
    have hentered : t.entered action = t.table.tally := by
      cases action with
      | register method timeout => exact absurd rfl (hother method timeout)
      | _ => rfl
    have hcount := congrArg UInt64.ofNat (length_leaving h action hreturns hother)
    rw [UInt64.ofNat_add] at hcount
    rw [hentered]
    grind

theorem Balanced.run {t : Trial} {strays : Nat} (hbalanced : t.Balanced strays) (h : t.Sound)
    {actions : List Action} (hcompletes : t.Completes actions) :
    (t.run actions).Balanced (strays + t.strays actions) := by
  induction actions generalizing t strays with
  | nil => exact hbalanced
  | cons action rest ih =>
      rw [Trial.strays, ← Nat.add_assoc]
      exact ih (hbalanced.perform h hcompletes.1) (h.perform hcompletes.1) hcompletes.2

theorem Balanced.of_start (first : UInt64) (defaultTimeout : Nat) :
    (start first defaultTimeout).Balanced 0 := by
  rfl

/-- The ledger of a table.  After any actions, what was registered, with the outcomes that came for
nobody, is what is pending and what was counted.  An action counts once every entry that leaves the
table with it, and an outcome that comes for nobody; it counts them all under one account, and
enters at most the call that it registers.  To resolve counts one in any case, as resolved if it
says yes and as discarded if it says no, and a sweep counts as many timeouts as it says. -/
theorem ledger_balances {first : UInt64} {defaultTimeout : Nat} {actions : List Action} {t : Trial}
    (ht : t = (start first defaultTimeout).run actions)
    (hcompletes : (start first defaultTimeout).Completes actions) :
    let tally := t.table.tally
    (tally.registered + UInt64.ofNat ((start first defaultTimeout).strays actions) =
      UInt64.ofNat t.table.pendingCount +
        (tally.resolved + tally.timeouts + tally.cancelled + tally.discarded)) ∧
    (∀ action, t.Returns action →
      (t.perform action).1.table.tally =
        (t.entered action).credit
          (UInt64.ofNat ((t.leaving action).length + t.stray action))
          (action.account (t.perform action).2)) ∧
    (∀ id outcome, ∃ told, (t.perform (.resolve id outcome)).2 = .truth told ∧
      (t.perform (.resolve id outcome)).1.table.tally =
        tally.credit 1 (if told then .resolved else .discarded)) ∧
    (∃ removed, (t.perform .sweep).2 = .count removed ∧
      removed = (t.leaving .sweep).length ∧
      (t.perform .sweep).1.table.tally = tally.credit (UInt64.ofNat removed) .timeouts) := by
  subst ht
  have h := (Sound.of_start first defaultTimeout).run hcompletes
  have hbalanced := (Balanced.of_start first defaultTimeout).run (Sound.of_start _ _) hcompletes
  rw [Nat.zero_add] at hbalanced
  refine ⟨hbalanced, fun action hreturns => ledger_perform h hreturns, ?_, ?_⟩
  · intro id outcome
    exact ⟨_, rfl, (Table.resolve_ledger h.table id outcome).2⟩
  · exact ⟨_, rfl, (length_leaving_sweep h).symm, (Table.removeAllExpired_ledger h.table _ _).2⟩

/-- Two calls of three are swept, the third is resolved, and its late second reply is discarded. -/
theorem ledger_balances_after_sweep :
    let actions : List Action :=
      [.register "device.name" (some 10), .register "device.model" (some 10),
        .register "device.sku" none, .sleep 11, .sweep, .resolve 3 (.ok .null),
        .resolve 3 (.ok .null)]
    let t := (start 1 1000).run actions
    (start 1 1000).Completes actions ∧
      t.table.tally = ⟨3, 1, 2, 0, 1⟩ ∧ (start 1 1000).strays actions = 1 ∧
      t.table.tally.registered + UInt64.ofNat ((start 1 1000).strays actions) =
        UInt64.ofNat t.table.pendingCount +
          (t.table.tally.resolved + t.table.tally.timeouts + t.table.tally.cancelled +
            t.table.tally.discarded) := by
  intro actions t
  have hcompletes : (start 1 1000).Completes actions := by decide
  exact ⟨hcompletes, by decide, by decide, (ledger_balances rfl hcompletes).1⟩

end Trial

end GatewayClient
