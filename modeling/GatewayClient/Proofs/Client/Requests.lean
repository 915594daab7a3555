/-
The requests that have been handed to the link.  Each is known by its id, and a call hands over one
at most, with its own.
-/
import GatewayClient.Proofs.Client.Matching

namespace GatewayClient

namespace Client

open Table (slotId)

/-- The id of the request that a frame is.  A reply names no method and is none. -/
def requestId? (frame : Json) : Option UInt64 :=
  (frame.get? "method").bind fun _ => (frame.get? "id").bind Json.toWord?

/-- The ids of the requests that the link has taken, in order. -/
def requestIds (c : Client) : List UInt64 :=
  c.sent.filterMap requestId?

theorem requestId?_requestFrame (call : Call) (id : UInt64) :
    requestId? (requestFrame call id) = some id := by
  have hmembers : requestFrame call id = Json.ofMembers
      [("jsonrpc", .string protocolVersion), ("id", Json.ofWord id),
        ("method", .string call.method),
        ("params", Request.paramsOf (call.params.getD .null))] := rfl
  simp [requestId?, hmembers, Json.ofMembers, Json.sortMembers, Json.get?, Json.member?_putMember,
    Json.toWord?_ofWord]

theorem requestId?_toJson (r : Response) : requestId? r.toJson = none := by
  obtain ⟨version, id, result, error⟩ := r
  cases result <;> cases error <;>
    simp [requestId?, Response.toJson, Response.codec, Codec.convert, Fields.record,
      Fields.toMembers, Field.required, Field.optional, Json.ofMembers, Json.sortMembers, Json.get?,
      Json.member?_putMember, Json.member?]

theorem filterMap_replies (replies : List Response) :
    (replies.map Response.toJson).filterMap requestId? = [] := by
  rw [List.filterMap_eq_nil_iff]
  intro frame hframe
  obtain ⟨r, -, rfl⟩ := List.mem_map.mp hframe
  exact requestId?_toJson r

theorem Seen.requestIds {c c' : Client} {table : Table} {sent : List Json}
    {calls : JobId → Option (Call × CallStage)} (h : Seen c c' table sent calls) :
    c'.requestIds = sent.filterMap requestId? := by
  obtain ⟨replies, hsent⟩ := h.sent
  rw [Client.requestIds, hsent, List.filterMap_append, filterMap_replies, List.append_nil]

theorem filterMap_handed (c : Client) (call : Call) (id : UInt64) :
    (c.sent ++ [requestFrame call id]).filterMap requestId? = c.requestIds ++ [id] := by
  rw [List.filterMap_append, requestIds]
  simp [requestId?_requestFrame]

/-- The move of a client at which a job hands the request of its call over. -/
def HandsOver (c : Client) (m : Move) (i : JobId) (call : Call) (id : UInt64) : Prop :=
  m = .advance i ∧
    (∃ stage, c.callAt i = some (call, stage) ∧ stage.unsent? = some id) ∧
    (c.move m).sent = c.sent ++ [requestFrame call id] ∧
    (c.move m).requestIds = c.requestIds ++ [id]

/-- A move sends no request, or a job hands over that of its call. -/
theorem requestIds_move {c : Client} (hnumbered : c.Numbered) (m : Move) :
    (c.move m).requestIds = c.requestIds ∨ ∃ i call id, c.HandsOver m i call id := by
  cases callCase hnumbered m with
  | quiet hreply h => exact Or.inl h.requestIds
  | reply hreply h => exact Or.inl h.requestIds
  | sweep hm hreply hjob h => exact Or.inl h.requestIds
  | @step i call stage stage' table sent hm hreply hcall hstep hsent h =>
      have hids := h.requestIds
      cases hstep with
      | @hand _ id slot hunsent hentry =>
          refine Or.inr ⟨i, call, id, hm, ⟨stage, ?_, hunsent⟩, hsent, ?_⟩
          · rcases hcall with ⟨rfl, -⟩ | hcall
            · cases hunsent
            · exact hcall
          · rw [hids, filterMap_handed]
      | enter | queue | refuse | take | miss | expire | cancel => exact Or.inl hids
  | leave hm hreply hcall hentry hsent h => exact Or.inl h.requestIds

/-- The requests sent are of different calls, and no call that has yet to hand its request over is
among them. -/
structure Handed (c : Client) : Prop where
  nodup : c.requestIds.Nodup
  drawn : ∀ id ∈ c.requestIds, ∃ slot, slot < c.table.slots.length ∧ id = slotId slot
  unsent : ∀ i call stage id, c.callAt i = some (call, stage) → stage.unsent? = some id →
    id ∉ c.requestIds

namespace Handed

variable {c c' : Client}

theorem ofSettings (settings : Settings) (link : Link) : (ofSettings settings link).Handed where
  nodup := List.nodup_nil
  drawn := by
    intro id hid
    cases hid
  unsent := by
    intro i call stage id hcall
    cases hcall

/-- A move that sends no request and after which every call that has yet to hand its own over had to
before. -/
theorem of_unsent (h : c.Handed) (hids : c'.requestIds = c.requestIds)
    (hslots : c.table.slots.length ≤ c'.table.slots.length)
    (hunsent : ∀ i call stage id, c'.callAt i = some (call, stage) → stage.unsent? = some id →
      ∃ j call' stage', c.callAt j = some (call', stage') ∧ stage'.unsent? = some id) :
    c'.Handed where
  nodup := by
    rw [hids]
    exact h.nodup
  drawn := by
    intro id hid
    rw [hids] at hid
    obtain ⟨slot, hslot, heq⟩ := h.drawn id hid
    exact ⟨slot, Nat.lt_of_lt_of_le hslot hslots, heq⟩
  unsent := by
    intro i call stage id hcall hid
    obtain ⟨j, call', stage', hcall', hid'⟩ := hunsent i call stage id hcall hid
    rw [hids]
    exact h.unsent j call' stage' id hcall' hid'

/-- A call under way that did not change and has yet to hand its request over. -/
theorem of_calls (h : c.Handed) (hids : c'.requestIds = c.requestIds)
    (hslots : c.table.slots.length ≤ c'.table.slots.length)
    (hcalls : ∀ i, c'.callAt i = c.callAt i) : c'.Handed := by
  refine h.of_unsent hids hslots fun i call stage id hcall hid => ⟨i, call, stage, ?_, hid⟩
  rwa [hcalls] at hcall

/-- A step after which a call has nothing to hand over. -/
theorem of_others (h : c.Handed) {i : JobId} (hids : c'.requestIds = c.requestIds)
    (hslots : c.table.slots.length ≤ c'.table.slots.length)
    (hothers : ∀ j, j ≠ i → c'.callAt j = c.callAt j)
    (hown : ∀ call stage id, c'.callAt i = some (call, stage) → stage.unsent? ≠ some id) :
    c'.Handed := by
  refine h.of_unsent hids hslots fun j call stage id hcall hid => ⟨j, call, stage, ?_, hid⟩
  by_cases heq : j = i
  · subst heq
    exact absurd hid (hown call stage id hcall)
  · rwa [hothers j heq] at hcall

/-- A call that enters the table has a new id. -/
theorem of_enter (h : c.Handed) (hmatched : c.Matched) {i : JobId} {call : Call}
    (hroom : c.table.slots.length + 1 < UInt64.size) (hids : c'.requestIds = c.requestIds)
    (hlength : c'.table.slots.length = c.table.slots.length + 1)
    (hothers : ∀ j, j ≠ i → c'.callAt j = c.callAt j)
    (hown : c'.callAt i = some (call, .entered c.table.newId c.table.slots.length)) :
    c'.Handed where
  nodup := by
    rw [hids]
    exact h.nodup
  drawn := by
    intro id hid
    rw [hids] at hid
    obtain ⟨slot, hslot, heq⟩ := h.drawn id hid
    exact ⟨slot, by omega, heq⟩
  unsent := by
    intro j call' stage id hcall hid hmem
    rw [hids] at hmem
    by_cases heq : j = i
    · subst heq
      rw [hown] at hcall
      cases hcall
      cases hid
      obtain ⟨slot, hslot, hsame⟩ := h.drawn _ hmem
      rw [hmatched.table.newId_eq hroom] at hsame
      have hlast := Table.slotId_inj hroom (by omega) hsame
      omega
    · rw [hothers j heq] at hcall
      exact h.unsent j call' stage id hcall hid hmem

/-- A call that hands its request over. -/
theorem of_hand (h : c.Handed) (hmatched : c.Matched) (hroom : c.table.slots.length < UInt64.size)
    {i : JobId} {call : Call} {stage stage' : CallStage} {id : UInt64}
    (hcall : c.callAt i = some (call, stage)) (hunsent : stage.unsent? = some id)
    (hids : c'.requestIds = c.requestIds ++ [id]) (htable : c'.table = c.table)
    (hothers : ∀ j, j ≠ i → c'.callAt j = c.callAt j)
    (hown : c'.callAt i = some (call, stage')) (hdone : stage'.unsent? = none) : c'.Handed := by
  obtain ⟨slot, hentry, -⟩ := CallStage.entryOf?_of_unsent? hunsent
  have hat : c.entryAt i = some (id, slot) := (entryAt_of_callAt hcall).trans hentry
  refine ⟨?_, ?_, ?_⟩
  · rw [hids]
    refine List.nodup_append.mpr ⟨h.nodup, List.nodup_singleton id, ?_⟩
    rintro other hother _ hlast rfl
    rw [List.mem_singleton.mp hlast] at hother
    exact h.unsent i call stage id hcall hunsent hother
  · intro other hother
    rw [hids, List.mem_append, List.mem_singleton] at hother
    rw [htable]
    rcases hother with hold | rfl
    · exact h.drawn other hold
    · obtain ⟨hid, hslot⟩ := hmatched.entry i other slot hat
      exact ⟨slot, hslot, hid⟩
  · intro j call' stage'' other hcall' hunsent' hmem
    by_cases heq : j = i
    · subst heq
      rw [hown] at hcall'
      cases hcall'
      rw [hdone] at hunsent'
      cases hunsent'
    · rw [hothers j heq] at hcall'
      rw [hids, List.mem_append, List.mem_singleton] at hmem
      rcases hmem with hold | rfl
      · exact h.unsent j call' stage'' other hcall' hunsent' hold
      · obtain ⟨slot', hentry', -⟩ := CallStage.entryOf?_of_unsent? hunsent'
        exact heq (hmatched.eq_of_id hroom ((entryAt_of_callAt hcall').trans hentry') hat)

theorem move (h : c.Handed) (hmatched : c.Matched) (m : Move)
    (hroom : (c.move m).table.slots.length < UInt64.size) : (c.move m).Handed := by
  have hslots := slots_length_le_move hmatched.numbered m
  have hbefore := Nat.lt_of_le_of_lt hslots hroom
  cases callCase hmatched.numbered m with
  | quiet hreply hseen => exact h.of_calls hseen.requestIds hslots hseen.calls
  | reply hreply hseen => exact h.of_calls hseen.requestIds hslots hseen.calls
  | sweep hm hreply hjob hseen => exact h.of_calls hseen.requestIds hslots hseen.calls
  | @step i call stage stage' table sent hm hreply hcall hstep hsent hseen =>
      have hown := hseen.own
      have hids := hseen.requestIds
      cases hstep with
      | enter hparams =>
          have hlength : (c.move m).table.slots.length = c.table.slots.length + 1 := by
            rw [hseen.table, Table.register, List.length_append, List.length_singleton]
          exact h.of_enter hmatched (hlength ▸ hroom) hids hlength hseen.others hown
      | @hand _ id slot hunsent hentry =>
          rw [filterMap_handed] at hids
          rcases hcall with ⟨rfl, -⟩ | hcall
          · cases hunsent
          · exact h.of_hand hmatched hbefore hcall hunsent hids hseen.table hseen.others hown rfl
      | @queue id slot =>
          -- The frame is still to be handed over, as before.
          apply h.of_unsent hids hslots
          intro j call' stage id' hcall' hid'
          by_cases heq : j = i
          · subst heq
            rw [hown] at hcall'
            cases hcall'
            rcases hcall with ⟨hfresh, -⟩ | hcall
            · cases hfresh
            · exact ⟨j, _, _, hcall, hid'⟩
          · exact ⟨j, call', stage, (hseen.others j heq) ▸ hcall', hid'⟩
      | refuse | take | miss | expire | cancel =>
          apply h.of_others hids hslots hseen.others
          intro call' stage id hcall' hid
          rw [hown] at hcall'
          cases hcall'
          cases hid
  | leave hm hreply hcall hentry hsent hseen =>
      apply h.of_others hseen.requestIds hslots hseen.others
      intro call' stage id hcall'
      rw [hseen.own] at hcall'
      cases hcall'

theorem run (h : c.Handed) (hmatched : c.Matched) (moves : List Move)
    (hroom : (c.run moves).table.slots.length < UInt64.size) : (c.run moves).Handed := by
  induction moves generalizing c with
  | nil => exact h
  | cons m rest ih =>
      have hnext := Nat.lt_of_le_of_lt
        (slots_length_le_run (hmatched.numbered.move m) rest) hroom
      exact ih (h.move hmatched m hnext) (hmatched.move m hnext) hroom

end Handed

end Client

end GatewayClient
