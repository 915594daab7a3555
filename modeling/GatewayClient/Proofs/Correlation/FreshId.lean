/-
Where the id of a new call comes from.  Ids are drawn one after the other until one comes that no
pending call has; the greatest word is followed by zero.  As long as some word is free the drawing
ends, at the first free word from the allocator's position on, so no call is replaced.
-/
import GatewayClient.Proofs.Correlation.Table
import Mathlib.Data.Finset.Card
import Mathlib.Order.Bounds.Defs

namespace GatewayClient

namespace Table

/-- The drawing of an id, without any bound: from a position of the allocator on, `passed` ids that
are taken are passed over, then `id` is free, and the allocator stands at `next`. -/
inductive Draws (taken : List UInt64) : UInt64 → Nat → UInt64 → UInt64 → Prop where
  | free {position : UInt64} (hfree : position ∉ taken) :
      Draws taken position 0 position (position + 1)
  | pass {position id next : UInt64} {passed : Nat} (htaken : position ∈ taken)
      (hrest : Draws taken (position + 1) passed id next) :
      Draws taken position (passed + 1) id next

variable {taken : List UInt64} {position id next : UInt64} {passed : Nat}

/-- The word that is `k` draws further on. -/
theorem ofNat_succ_add (position : UInt64) (k : Nat) :
    UInt64.ofNat (position.toNat + (k + 1)) = UInt64.ofNat ((position + 1).toNat + k) := by
  rw [UInt64.ofNat_add, UInt64.ofNat_add, UInt64.ofNat_add, UInt64.ofNat_toNat, UInt64.ofNat_toNat,
    UInt64.add_assoc, UInt64.add_comm (UInt64.ofNat k)]
  rfl

/-- The drawing comes to one end only. -/
theorem Draws.unique {passed' : Nat} {id' next' : UInt64} (h : Draws taken position passed id next)
    (h' : Draws taken position passed' id' next') : passed' = passed ∧ id' = id ∧ next' = next := by
  induction h generalizing passed' with
  | free hfree =>
      cases h' with
      | free => exact ⟨rfl, rfl, rfl⟩
      | pass htaken => exact absurd htaken hfree
  | pass htaken _ ih =>
      cases h' with
      | free hfree => exact absurd htaken hfree
      | pass _ hrest =>
          obtain ⟨rfl, rfl, rfl⟩ := ih hrest
          exact ⟨rfl, rfl, rfl⟩

/-- It ends at the first word that is free, counted from the position on. -/
theorem Draws.isLeast (h : Draws taken position passed id next) :
    id = UInt64.ofNat (position.toNat + passed) ∧
      IsLeast {k | UInt64.ofNat (position.toNat + k) ∉ taken} passed := by
  induction h with
  | free hfree =>
      refine ⟨UInt64.ofNat_toNat.symm, ?_, fun k _ => Nat.zero_le k⟩
      rw [Set.mem_ofPred_eq, Nat.add_zero, UInt64.ofNat_toNat]
      exact hfree
  | @pass position id next passed htaken hrest ih =>
      obtain ⟨hid, hfree, hleast⟩ := ih
      rw [Set.mem_ofPred_eq, ← ofNat_succ_add] at hfree
      refine ⟨hid.trans (ofNat_succ_add position passed).symm, hfree, ?_⟩
      intro k hk
      cases k with
      | zero =>
          rw [Set.mem_ofPred_eq, Nat.add_zero, UInt64.ofNat_toNat] at hk
          exact absurd htaken hk
      | succ k =>
          rw [Set.mem_ofPred_eq, ofNat_succ_add] at hk
          exact Nat.succ_le_succ (hleast hk)

/-- A search among limited candidates that finds a free one has drawn it. -/
theorem draws_freshId {more : Nat} (hfree : freshId taken position more ∉ taken) :
    ∃ passed, Draws taken position passed (freshId taken position more)
      (freshId taken position more + 1) := by
  induction more generalizing position with
  | zero => exact ⟨0, .free hfree⟩
  | succ more ih =>
      by_cases htaken : position ∈ taken
      · rw [freshId, if_pos htaken] at hfree ⊢
        obtain ⟨passed, hdraws⟩ := ih hfree
        exact ⟨passed + 1, .pass htaken hdraws⟩
      · rw [freshId, if_neg htaken]
        exact ⟨0, .free htaken⟩

variable {t : Table}

/-- As long as a word is free a registration draws its id. -/
theorem draws_newId (hroom : t.pendingIds.toFinset.card < UInt64.size) :
    ∃ passed, Draws t.pendingIds t.next passed t.newId (t.newId + 1) := by
  have hmore : t.pendingIds.toFinset.card ≤ t.pending.length :=
    t.pendingIds.toFinset_card_le.trans_eq (Dictionary.length_keys t.pending)
  exact draws_freshId (freshId_not_mem_of_card t.next hroom hmore)

theorem pendingIds_register (t : Table) (method : String) (timeout : Option Nat) (now : Nat) :
    (t.register method timeout now).1.pendingIds.toFinset =
      insert t.newId t.pendingIds.toFinset := by
  have hkeys : (t.register method timeout now).1.pendingIds =
      if t.newId ∈ t.pendingIds then t.pendingIds else t.pendingIds ++ [t.newId] :=
    Dictionary.keys_put _ _ _
  ext other
  rw [hkeys, List.mem_toFinset, Finset.mem_insert, List.mem_toFinset]
  split
  · next hmem => exact ⟨Or.inr, fun h => h.elim (fun heq => heq ▸ hmem) fun hold => hold⟩
  · rw [List.mem_append, List.mem_singleton, or_comm]

/-- A registration ends and its id is fresh, wherever the allocator stands and whatever is pending,
as long as some word is free.  The ids that are taken are passed over: the drawing, to which no
bound is set, ends at the first word that is free from the allocator's position on, there only, and
the allocator then stands behind it.  The call is entered under this id beside those that were
there, which stay as they are with their receivers, and one more is counted however many ids were
passed over. -/
theorem register_draws_fresh (t : Table) (method : String) (timeout : Option Nat) (now : Nat)
    (hroom : t.pendingIds.toFinset.card < UInt64.size) {t' : Table} {id : UInt64} {slot : Nat}
    (hregister : t.register method timeout now = (t', id, slot)) :
    ∃ k,
      (Draws t.pendingIds t.next k id t'.next ∧
        ∀ k' id' next', Draws t.pendingIds t.next k' id' next' →
          k' = k ∧ id' = id ∧ next' = t'.next) ∧
      (id = UInt64.ofNat (t.next.toNat + k) ∧
        IsLeast {k | UInt64.ofNat (t.next.toNat + k) ∉ t.pendingIds} k ∧
        t'.next = UInt64.ofNat (t.next.toNat + k + 1)) ∧
      (t'.pendingIds.toFinset = insert id t.pendingIds.toFinset ∧ id ∉ t.pendingIds ∧
        t'.pending.get? id = some ⟨slot, now, method, timeout.getD t.defaultTimeout⟩ ∧
        ∀ other call, t.pending.get? other = some call → t'.pending.get? other = some call) ∧
      (t'.slotAt slot = .fresh ∧
        ∀ other < t.slots.length, other ≠ slot ∧ t'.slotAt other = t.slotAt other) ∧
      t'.tally = { t.tally with registered := t.tally.registered + 1 } := by
  obtain rfl : (t.register method timeout now).1 = t' := congrArg Prod.fst hregister
  obtain rfl : t.newId = id := congrArg (fun p => p.2.1) hregister
  obtain rfl : t.slots.length = slot := congrArg (fun p => p.2.2) hregister
  obtain ⟨k, hdraws⟩ := draws_newId hroom
  have hnext : (t.register method timeout now).1.next = t.newId + 1 := rfl
  obtain ⟨hid, hleast⟩ := hdraws.isLeast
  have hfree : t.newId ∉ t.pendingIds := hid ▸ hleast.1
  refine ⟨k, ⟨hdraws, fun k' id' next' h => hdraws.unique h⟩, ⟨hid, hleast, ?_⟩,
    ⟨pendingIds_register t method timeout now, hfree, ?_, ?_⟩, ⟨?_, ?_⟩, rfl⟩
  · rw [hnext, hid, UInt64.ofNat_add _ 1]
    rfl
  · rw [get?_register, if_pos rfl]
  · intro other call hget
    have hne : t.newId ≠ other := by
      rintro rfl
      exact hfree ((Dictionary.mem_keys _ _).mpr ⟨call, hget⟩)
    rw [get?_register, if_neg hne, hget]
  · rw [slotAt_register, if_pos rfl]
  · intro other hother
    rw [slotAt_register, if_neg (Nat.ne_of_lt hother)]
    exact ⟨Nat.ne_of_lt hother, rfl⟩

/-- The allocator stands at the greatest word, and this and the two that follow are taken. -/
theorem register_draws_fresh_wrapped :
    let call : Nat → PendingCall := fun slot => ⟨slot, 0, "device.name", 1000⟩
    let last : UInt64 := 18446744073709551615
    let t : Table :=
      { pending := [(last, call 0), (0, call 1), (1, call 2)], next := last, defaultTimeout := 1000,
        tally := { registered := 3 }, slots := [.fresh, .fresh, .fresh] }
    let t' := (t.register "device.model" none 0).1
    t.pendingIds.toFinset.card < UInt64.size ∧
      t.register "device.model" none 0 = (t', 2, 3) ∧ t'.next = 3 ∧
      t'.pending.get? last = some (call 0) ∧ t'.tally.registered = 4 := by
  intro call last t t'
  have hroom : t.pendingIds.toFinset.card < UInt64.size := by decide
  have hregister : t.register "device.model" none 0 = (t', 2, 3) := by decide
  obtain ⟨k, -, -, ⟨-, -, -, hkept⟩, -, htally⟩ :=
    register_draws_fresh t "device.model" none 0 hroom hregister
  refine ⟨hroom, hregister, by decide, hkept last (call 0) (by decide), ?_⟩
  rw [htally]
  decide

end Table

end GatewayClient
