/-
Replies that come in together.  As long as their ids are different, it does not matter in which
order they are delivered: each is told what it would be told alone, each call gets the outcome that
is for it, and the table with its tally is the same; only those that are ready may come in another
order.
-/
import GatewayClient.Proofs.Client.Addressed
import GatewayClient.Proofs.Correlation.Commuting

namespace GatewayClient

theorem Response.callId?_inj {r r' : Response} {id : UInt64} (h : r.callId? = some id)
    (h' : r'.callId? = some id) : r.id = r'.id :=
  (Json.toWord?_eq_some_iff.mp h).trans (Json.toWord?_eq_some_iff.mp h').symm

namespace Client

/-- Takes in replies one after the other; what is told of each. -/
def deliverResponses (c : Client) : List Response → Client × List Bool
  | [] => (c, [])
  | r :: rest =>
    let (client, matched) := c.deliverResponse r
    let (client, told) := deliverResponses client rest
    (client, matched :: told)

/-- Takes in the texts of frames one after the other; what is told of each. -/
def deliverTexts (c : Client) (answering : Bool) : List String → Client × List Delivery
  | [] => (c, [])
  | text :: rest =>
    let (client, delivery) := c.deliver text answering
    let (client, told) := deliverTexts client answering rest
    (client, delivery :: told)

/-- The outcome that is there for the call of a job to take. -/
def outcomeAt (c : Client) (i : JobId) : Option Outcome :=
  (c.callAt i).bind fun call => call.2.listened?.bind fun slot =>
    match c.table.content slot with
    | .filled outcome => some outcome
    | _ => none

/-- The reply is for the call of job `i`: its id has the entry of that call. -/
def Addresses (c : Client) (r : Response) (i : JobId) : Prop :=
  ∃ id p, r.callId? = some id ∧ c.table.pending.get? id = some p ∧ c.entryAt i = some (id, p.slot)

/-- `c'` is `c` but for the order of those that are ready. -/
def Reordered (c c' : Client) : Prop :=
  ∃ ready, ready.Perm c.ready ∧ c' = { c with ready := ready }

/-- The replies come to the same in the order of `frames'` as in that of `frames`.  The table is the
same, its tally and its slots included, each reply is told what it would be told alone, and every
call has the outcome that the reply for it carries. -/
structure InAnyOrder (c : Client) (frames frames' : List Response) : Prop where
  table : (c.deliverResponses frames').1.table = (c.deliverResponses frames).1.table
  rest : (c.deliverResponses frames).1.Reordered (c.deliverResponses frames').1
  told : (c.deliverResponses frames).2 = frames.map (fun r => (c.deliverResponse r).2) ∧
    (c.deliverResponses frames').2 = frames'.map fun r => (c.deliverResponse r).2
  outcomes : ∀ i, (c.deliverResponses frames').1.outcomeAt i =
    (c.deliverResponses frames).1.outcomeAt i
  answered : ∀ i call stage slot r, c.callAt i = some (call, stage) →
    stage.listened? = some slot → r ∈ frames → c.Addresses r i →
    (c.deliverResponses frames').1.outcomeAt i = some r.outcome
  unanswered : ∀ i, (∀ r ∈ frames, ¬ c.Addresses r i) →
    (c.deliverResponses frames').1.callAt i = c.callAt i ∧
      (c.deliverResponses frames').1.outcomeAt i = c.outcomeAt i
  taken : ∀ i call id slot deadline outcome, c.callAt i = some (call, .waiting id slot deadline) →
    (c.deliverResponses frames').1.outcomeAt i = some outcome →
    ((c.deliverResponses frames').1.move (.advance i)).callAt i =
      some (call, .over id slot outcome)
  spelled : ∀ answering texts, texts.map Inbound.parse =
      frames'.map (fun r => .ok (.response r)) →
    c.deliverTexts answering texts =
      ((c.deliverResponses frames').1, (c.deliverResponses frames').2.map .response)

variable {c c' : Client} {r r' : Response} {i : JobId} {id other : UInt64}

namespace Reordered

theorem refl (c : Client) : c.Reordered c :=
  ⟨c.ready, .refl _, rfl⟩

theorem trans {c₁ : Client} (h : c.Reordered c₁) (h' : c₁.Reordered c') : c.Reordered c' := by
  obtain ⟨ready, hperm, rfl⟩ := h
  obtain ⟨ready', hperm', rfl⟩ := h'
  exact ⟨ready', hperm'.trans hperm, rfl⟩

theorem wake (h : c.Reordered c') (job : JobId) : (c.wake job).Reordered (c'.wake job) := by
  obtain ⟨ready, hperm, rfl⟩ := h
  rw [Client.wake, Client.wake]
  by_cases hmem : job ∈ c.ready
  · rw [if_pos hmem, if_pos (hperm.mem_iff.mpr hmem)]
    exact ⟨ready, hperm, rfl⟩
  · rw [if_neg hmem, if_neg (hmem ∘ hperm.mem_iff.mp)]
    exact ⟨ready ++ [job], hperm.append_right [job], rfl⟩

theorem wakeOption (h : c.Reordered c') (job : Option JobId) :
    (c.wakeOption job).Reordered (c'.wakeOption job) := by
  cases job with
  | none => exact h
  | some job => exact h.wake job

/-- Two jobs may be woken in either order. -/
theorem wake_comm (c : Client) (job job' : JobId) :
    ((c.wake job).wake job').Reordered ((c.wake job').wake job) := by
  by_cases heq : job = job'
  · rw [heq]
    exact refl _
  · by_cases hmem : job ∈ c.ready <;> by_cases hmem' : job' ∈ c.ready <;>
      simp only [Client.wake, hmem, hmem', heq, Ne.symm heq, List.mem_append, List.mem_singleton,
        or_self, ↓reduceIte]
    · exact refl _
    · exact refl _
    · exact refl _
    · refine ⟨_, ?_, rfl⟩
      rw [List.append_assoc, List.append_assoc]
      exact (List.Perm.swap job job' []).append_left c.ready

theorem wakeOption_comm (c : Client) (job job' : Option JobId) :
    ((c.wakeOption job).wakeOption job').Reordered ((c.wakeOption job').wakeOption job) := by
  cases job with
  | none => exact refl _
  | some job =>
      cases job' with
      | none => exact refl _
      | some job' => exact wake_comm c job job'

end Reordered

/-- The job that waits under an id. -/
def waiterOf (c : Client) (id : UInt64) : Option JobId :=
  (c.table.pending.get? id).bind fun call => c.listenerOf call.slot

theorem resolve_fst (c : Client) (id : UInt64) (outcome : Outcome) :
    (c.resolve id outcome).1 =
      { c with table := (c.table.resolve id outcome).1 }.wakeOption (c.waiterOf id) :=
  rfl

theorem resolve_snd (c : Client) (id : UInt64) (outcome : Outcome) :
    (c.resolve id outcome).2 = c.table.hears id := by
  rw [resolve, Table.resolve_eq]

theorem waiterOf_resolve (hne : id ≠ other) (outcome : Outcome) :
    (c.resolve id outcome).1.waiterOf other = c.waiterOf other := by
  obtain ⟨ready, heq⟩ := c.resolve_woken id outcome
  rw [waiterOf, heq]
  simp only [Table.get?_resolve, if_neg hne]
  rfl

theorem setTable_wakeOption (c : Client) (job : Option JobId) (table : Table) :
    { c.wakeOption job with table := table } = { c with table := table }.wakeOption job := by
  cases job with
  | none => rfl
  | some job =>
      simp only [wakeOption, wake]
      split <;> rfl

/-- Of two outcomes for different ids either may be given first. -/
theorem resolve_comm (h : c.table.Guarded) (hne : id ≠ other) (outcome outcome' : Outcome) :
    ((c.resolve id outcome).1.resolve other outcome').1.Reordered
      ((c.resolve other outcome').1.resolve id outcome).1 := by
  rw [resolve_fst (c.resolve id outcome).1, resolve_fst (c.resolve other outcome').1,
    waiterOf_resolve hne, waiterOf_resolve hne.symm, table_resolve, table_resolve,
    h.resolve_comm hne, resolve_fst c id, resolve_fst c other, setTable_wakeOption,
    setTable_wakeOption]
  exact .wakeOption_comm _ _ _

theorem Reordered.resolve (h : c.Reordered c') (id : UInt64) (outcome : Outcome) :
    (c.resolve id outcome).1.Reordered (c'.resolve id outcome).1 := by
  obtain ⟨ready, hperm, rfl⟩ := h
  let table := (c.table.resolve id outcome).1
  have htable : { c with table := table }.Reordered { c with table := table, ready := ready } :=
    ⟨ready, hperm, rfl⟩
  exact htable.wakeOption (c.waiterOf id)

theorem Reordered.deliverResponse (h : c.Reordered c') (r : Response) :
    (c.deliverResponse r).1.Reordered (c'.deliverResponse r).1 := by
  cases hid : r.callId? with
  | none =>
      rw [deliverResponse_of_none hid, deliverResponse_of_none hid]
      exact h
  | some id =>
      rw [deliverResponse_of_some hid, deliverResponse_of_some hid]
      exact h.resolve id r.outcome

/-- Of two replies with different ids either may be delivered first. -/
theorem deliverResponse_comm (h : c.table.Guarded) (hne : r.id ≠ r'.id) :
    ((c.deliverResponse r).1.deliverResponse r').1.Reordered
      ((c.deliverResponse r').1.deliverResponse r).1 := by
  cases hid : r.callId? with
  | none =>
      rw [deliverResponse_of_none hid, deliverResponse_of_none hid]
      exact .refl _
  | some id =>
      cases hid' : r'.callId? with
      | none =>
          rw [deliverResponse_of_none hid', deliverResponse_of_none hid']
          exact .refl _
      | some other =>
          have hother : id ≠ other := by
            rintro rfl
            exact hne (Response.callId?_inj hid hid')
          simp only [deliverResponse_of_some hid, deliverResponse_of_some hid']
          exact resolve_comm h hother r.outcome r'.outcome

/-- What a reply is told does not depend on whether one with another id has come. -/
theorem deliverResponse_snd (hne : r.id ≠ r'.id) :
    ((c.deliverResponse r).1.deliverResponse r').2 = (c.deliverResponse r').2 := by
  cases hid : r.callId? with
  | none => rw [deliverResponse_of_none hid]
  | some id =>
      cases hid' : r'.callId? with
      | none => rw [deliverResponse_of_none hid', deliverResponse_of_none hid']
      | some other =>
          have hother : id ≠ other := by
            rintro rfl
            exact hne (Response.callId?_inj hid hid')
          rw [deliverResponse_of_some hid, deliverResponse_of_some hid',
            deliverResponse_of_some hid', resolve_snd, resolve_snd, table_resolve,
            Table.hears_resolve hother]

@[simp] theorem table_deliverResponse (c : Client) (r : Response) :
    (c.deliverResponse r).1.table = c.tableAfter r := by
  obtain ⟨ready, heq⟩ := c.deliverResponse_eq r
  rw [heq]

@[simp] theorem callAt_deliverResponse (c : Client) (r : Response) (i : JobId) :
    (c.deliverResponse r).1.callAt i = c.callAt i := by
  obtain ⟨ready, heq⟩ := c.deliverResponse_eq r
  rw [heq]
  rfl

theorem Attended.deliverResponse (h : c.Attended) (r : Response) :
    (c.deliverResponse r).1.Attended := by
  obtain ⟨ready, heq⟩ := c.deliverResponse_eq r
  rw [heq]
  have hreserved : { c with table := c.tableAfter r, ready := ready }.Reserved :=
    h.reserved.of_calls h.reserved.numbered (guarded_tableAfter h.reserved.table r)
      (slots_length_tableAfter c r) (fun _ => rfl) (listening_tableAfter c r)
  exact h.of_calls hreserved (fun _ => rfl) (fun _ _ => get?_of_tableAfter)
    (listening_tableAfter c r)

/-- A reply is for the call that holds the entry with its id. -/
theorem Attended.addresses (h : c.Attended) {p : PendingCall} (hid : r.callId? = some id)
    (hget : c.table.pending.get? id = some p) (hentry : c.entryAt i = some (other, p.slot)) :
    c.Addresses r i := by
  obtain ⟨j, hholds⟩ := h.held id p hget
  obtain rfl := h.reserved.apart i j other id p.slot hentry hholds.entryAt
  exact ⟨id, p, hid, hget, hholds.entryAt⟩

/-- Who is addressed by a reply after another has come has been so before. -/
theorem Addresses.of_deliverResponse (h : (c.deliverResponse r').1.Addresses r i) :
    c.Addresses r i := by
  obtain ⟨id, p, hid, hget, hentry⟩ := h
  rw [table_deliverResponse] at hget
  rw [entryAt_congr (callAt_deliverResponse c r' i)] at hentry
  exact ⟨id, p, hid, Attended.get?_of_tableAfter hget, hentry⟩

theorem Addresses.deliverResponse (h : c.Addresses r i) (hne : r'.id ≠ r.id) :
    (c.deliverResponse r').1.Addresses r i := by
  obtain ⟨id, p, hid, hget, hentry⟩ := h
  refine ⟨id, p, hid, ?_, (entryAt_congr (callAt_deliverResponse c r' i)).trans hentry⟩
  rw [table_deliverResponse, tableAfter]
  cases hid' : r'.callId? with
  | none => exact hget
  | some other =>
      have hother : other ≠ id := by
        rintro rfl
        exact hne (Response.callId?_inj hid' hid)
      rw [Table.get?_resolve, if_neg hother, hget]

/-- A reply takes the entry away that has its id. -/
theorem not_addresses_deliverResponse (h : c.Addresses r i) :
    ¬ (c.deliverResponse r).1.Addresses r' i := by
  obtain ⟨id, p, hid, hget, hentry⟩ := h
  rintro ⟨other, p', -, hget', hentry'⟩
  rw [entryAt_congr (callAt_deliverResponse c r i), hentry] at hentry'
  obtain ⟨rfl, -⟩ := Prod.mk.inj (Option.some.inj hentry')
  rw [table_deliverResponse, tableAfter, hid, Table.get?_resolve, if_pos rfl] at hget'
  cases hget'

theorem outcomeAt_of_listened {call : Call} {stage : CallStage} {slot : Nat}
    (hcall : c.callAt i = some (call, stage)) (hlistened : stage.listened? = some slot) :
    c.outcomeAt i =
      match (c.table.slotAt slot).content with
      | .filled outcome => some outcome
      | _ => none := by
  rw [outcomeAt, hcall, Option.bind_some, hlistened, Option.bind_some, Table.content_eq]

/-- A reply gives its outcome to the call that it is for. -/
theorem Attended.outcomeAt_of_addresses (h : c.Attended) {call : Call} {stage : CallStage}
    {slot : Nat} (hcall : c.callAt i = some (call, stage)) (hlistened : stage.listened? = some slot)
    (haddressed : c.Addresses r i) : (c.deliverResponse r).1.outcomeAt i = some r.outcome := by
  obtain ⟨id, p, hid, hget, hentry⟩ := haddressed
  obtain ⟨id', hentry'⟩ := CallStage.entryOf?_of_listened? hlistened
  rw [entryAt_of_callAt hcall, hentry'] at hentry
  cases hentry
  have hlistening := h.reserved.listens i call stage p.slot hcall hlistened
  have hcontent := h.reserved.table.content_resolve hget hlistening r.outcome
  rw [outcomeAt_of_listened ((callAt_deliverResponse c r i).trans hcall) hlistened,
    ← Table.content_eq, table_deliverResponse, tableAfter, hid, hcontent]

/-- A reply leaves alone what is there for a call that it is not for. -/
theorem Attended.outcomeAt_of_not_addresses (h : c.Attended) (hother : ¬ c.Addresses r i) :
    (c.deliverResponse r).1.outcomeAt i = c.outcomeAt i := by
  cases hcall : c.callAt i with
  | none => rw [outcomeAt, callAt_deliverResponse, hcall, outcomeAt, hcall]; rfl
  | some work =>
      obtain ⟨call, stage⟩ := work
      have hcall' := (callAt_deliverResponse c r i).trans hcall
      cases hlistened : stage.listened? with
      | none => rw [outcomeAt, hcall', outcomeAt, hcall]; simp [hlistened]
      | some slot =>
          obtain ⟨other, hentry⟩ := CallStage.entryOf?_of_listened? hlistened
          have hsame : (c.tableAfter r).slotAt slot = c.table.slotAt slot := by
            rw [tableAfter]
            cases hid : r.callId? with
            | none => rfl
            | some id =>
                simp only [Table.slotAt_resolve]
                apply Table.slotAt_conclude_of_ne
                rintro p hget rfl
                exact hother (h.addresses hid hget ((entryAt_of_callAt hcall).trans hentry))
          rw [outcomeAt_of_listened hcall' hlistened, outcomeAt_of_listened hcall hlistened,
            table_deliverResponse, hsame]

section several

variable {frames frames' : List Response}

theorem deliverResponses_cons (c : Client) (r : Response) (frames : List Response) :
    c.deliverResponses (r :: frames) =
      (((c.deliverResponse r).1.deliverResponses frames).1,
        (c.deliverResponse r).2 :: ((c.deliverResponse r).1.deliverResponses frames).2) :=
  rfl

theorem Reordered.deliverResponses (h : c.Reordered c') (frames : List Response) :
    (c.deliverResponses frames).1.Reordered (c'.deliverResponses frames).1 := by
  induction frames generalizing c c' with
  | nil => exact h
  | cons r rest ih => exact ih (h.deliverResponse r)

/-- Replies with different ids may be delivered in any order. -/
theorem Attended.deliverResponses_perm (h : c.Attended) (hids : (frames.map Response.id).Nodup)
    (hperm : frames.Perm frames') :
    (c.deliverResponses frames).1.Reordered (c.deliverResponses frames').1 := by
  induction hperm generalizing c with
  | nil => exact .refl _
  | cons r _ ih =>
      rw [List.map_cons, List.nodup_cons] at hids
      exact ih (h.deliverResponse r) hids.2
  | swap r r' rest =>
      have hne : r'.id ≠ r.id := by
        rintro heq
        simp [heq] at hids
      exact (deliverResponse_comm h.reserved.table hne).deliverResponses rest
  | trans hfirst _ ih ih' =>
      have hids' := (hfirst.map Response.id).nodup_iff.mp hids
      exact (ih h hids).trans (ih' h hids')

/-- Each of several replies with different ids is told what it would be told alone. -/
theorem told_deliverResponses (c : Client) (hids : (frames.map Response.id).Nodup) :
    (c.deliverResponses frames).2 = frames.map fun r => (c.deliverResponse r).2 := by
  induction frames generalizing c with
  | nil => rfl
  | cons r rest ih =>
      rw [List.map_cons, List.nodup_cons] at hids
      have hrest : ∀ r' ∈ rest,
          ((c.deliverResponse r).1.deliverResponse r').2 = (c.deliverResponse r').2 := by
        intro r' hmem
        apply deliverResponse_snd
        intro heq
        exact hids.1 (heq ▸ List.mem_map_of_mem hmem)
      rw [deliverResponses_cons, ih _ hids.2, List.map_congr_left hrest, List.map_cons]

theorem callAt_deliverResponses (c : Client) (frames : List Response) (i : JobId) :
    (c.deliverResponses frames).1.callAt i = c.callAt i := by
  induction frames generalizing c with
  | nil => rfl
  | cons r rest ih => exact (ih _).trans (callAt_deliverResponse c r i)

/-- Replies that are for others leave alone what is there for a call. -/
theorem Attended.outcomeAt_of_others (h : c.Attended) (hothers : ∀ r ∈ frames, ¬ c.Addresses r i) :
    (c.deliverResponses frames).1.outcomeAt i = c.outcomeAt i := by
  induction frames generalizing c with
  | nil => rfl
  | cons r rest ih =>
      obtain ⟨hhead, hrest⟩ := List.forall_mem_cons.mp hothers
      rw [deliverResponses_cons, ih (h.deliverResponse r), h.outcomeAt_of_not_addresses hhead]
      intro r' hmem haddressed
      exact hrest r' hmem haddressed.of_deliverResponse

/-- A call that listens gets the outcome of the reply that is for it, whatever comes before or
after. -/
theorem Attended.outcomeAt_of_mem (h : c.Attended) (hids : (frames.map Response.id).Nodup)
    {call : Call} {stage : CallStage} {slot : Nat} (hcall : c.callAt i = some (call, stage))
    (hlistened : stage.listened? = some slot) (hmem : r ∈ frames) (haddressed : c.Addresses r i) :
    (c.deliverResponses frames).1.outcomeAt i = some r.outcome := by
  induction frames generalizing c with
  | nil => cases hmem
  | cons r' rest ih =>
      rw [List.map_cons, List.nodup_cons] at hids
      rw [deliverResponses_cons]
      rcases List.mem_cons.mp hmem with rfl | hrest
      · rw [(h.deliverResponse r).outcomeAt_of_others,
          h.outcomeAt_of_addresses hcall hlistened haddressed]
        exact fun _ _ => not_addresses_deliverResponse haddressed
      · have hne : r'.id ≠ r.id := by
          intro heq
          exact hids.1 (heq ▸ List.mem_map_of_mem hrest)
        exact ih (h.deliverResponse r') hids.2 ((callAt_deliverResponse c r' i).trans hcall) hrest
          (haddressed.deliverResponse hne)

/-- To deliver the texts that spell replies is to deliver the replies. -/
theorem deliverTexts_eq (c : Client) (answering : Bool) {texts : List String}
    (hspell : texts.map Inbound.parse = frames.map fun r => .ok (.response r)) :
    c.deliverTexts answering texts =
      ((c.deliverResponses frames).1, (c.deliverResponses frames).2.map .response) := by
  induction frames generalizing c texts with
  | nil =>
      rw [List.map_nil, List.map_eq_nil_iff] at hspell
      rw [hspell]
      rfl
  | cons r rest ih =>
      obtain ⟨text, others, rfl, hparse, hrest⟩ := List.map_eq_cons_iff.mp hspell
      rw [deliverTexts, deliver_of_response answering hparse]
      dsimp only
      rw [ih _ hrest]
      rfl

end several

/-- In every state that a run reaches, replies with different ids come to the same in whatever order
they are delivered. -/
theorem replies_in_any_order (settings : Settings) (link : Link) (moves : List Move)
    (frames frames' : List Response) (hids : (frames.map Response.id).Nodup)
    (hperm : frames.Perm frames') :
    ((ofSettings settings link).run moves).InAnyOrder frames frames' := by
  have hattended := (Attended.ofSettings settings link).run moves
  have hids' := (hperm.map Response.id).nodup_iff.mp hids
  obtain ⟨ready, hready, heq⟩ := hattended.deliverResponses_perm hids hperm
  refine ⟨?_, ⟨ready, hready, heq⟩, ?_, ?_, ?_, ?_, ?_, ?_⟩
  · rw [heq]
  · exact ⟨told_deliverResponses _ hids, told_deliverResponses _ hids'⟩
  · intro i
    rw [heq]
    rfl
  · intro i call stage slot r hcall hlistened hmem haddressed
    exact hattended.outcomeAt_of_mem hids' hcall hlistened (hperm.mem_iff.mp hmem) haddressed
  · intro i hothers
    refine ⟨callAt_deliverResponses _ frames' i, hattended.outcomeAt_of_others ?_⟩
    exact fun r hmem => hothers r (hperm.mem_iff.mpr hmem)
  · intro i call id slot deadline outcome hcall houtcome
    have hcall' := (callAt_deliverResponses _ frames' i).trans hcall
    apply callAt_of_filled hcall'
    rw [outcomeAt_of_listened hcall' rfl] at houtcome
    rw [Table.content_eq]
    split at houtcome
    · next hfilled =>
        cases houtcome
        exact hfilled
    · cases houtcome
  · intro answering texts hspell
    exact deliverTexts_eq _ answering hspell

/-- Two calls get their own outcomes from replies that have crossed, among one that comes for nobody
and one whose id is no word. -/
theorem replies_in_any_order_crossed :
    let call (method : String) : Move := .begin (.call ⟨method, some (.object []), none⟩ .nothing)
    let client := (ofSettings {} (.direct .up)).run
      [call "device.name", call "device.model", .advance 0, .advance 0, .advance 1, .advance 1]
    let first := Response.ofOutcome (Json.ofWord 1) (.ok .null)
    let second := Response.ofOutcome (Json.ofWord 2) (.error .timeout)
    let stray := Response.ofOutcome (Json.ofWord 9) (.ok .null)
    let foreign := Response.ofOutcome (.string "1") (.ok .null)
    let crossed := client.deliverResponses [foreign, second, stray, first]
    crossed.2 = [false, true, false, true] ∧ crossed.1.table.tally = ⟨2, 2, 0, 0, 1⟩ ∧
      crossed.1.outcomeAt 0 = some (.ok .null) ∧ crossed.1.outcomeAt 1 = some (.error .timeout) ∧
      ([first, second, stray, foreign].map Response.id).Nodup ∧
      [first, second, stray, foreign].Perm [foreign, second, stray, first] ∧
      client.InAnyOrder [first, second, stray, foreign] [foreign, second, stray, first] :=
  ⟨by decide, by decide, by decide, by decide, by decide, by decide,
    replies_in_any_order {} (.direct .up) _ _ _ (by decide) (by decide)⟩

end Client

end GatewayClient
