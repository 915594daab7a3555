/-
The listeners of an event, told by what has happened in a run: those whose subscription has come to
success and who have not had to go since, in the order in which they came.  Each has an id of its
own as long as the ids last.
-/
import GatewayClient.Proofs.Client.Settling

namespace GatewayClient

namespace Table

theorem mem_drawIds {first id : UInt64} {count : Nat} :
    id ∈ drawIds first count ↔ ∃ k, k < count ∧ id = first + UInt64.ofNat k := by
  induction count generalizing first with
  | zero => simp [drawIds]
  | succ count ih =>
      rw [drawIds, List.mem_cons, ih]
      constructor
      · rintro (rfl | ⟨k, hk, rfl⟩)
        · exact ⟨0, Nat.succ_pos count, by simp⟩
        · refine ⟨k + 1, Nat.succ_lt_succ hk, ?_⟩
          rw [UInt64.ofNat_add, UInt64.add_assoc, UInt64.add_comm (UInt64.ofNat k)]
          rfl
      · rintro ⟨k, hk, rfl⟩
        cases k with
        | zero => exact Or.inl (by simp)
        | succ k =>
            refine Or.inr ⟨k, Nat.lt_of_succ_lt_succ hk, ?_⟩
            rw [UInt64.ofNat_add, UInt64.add_assoc, UInt64.add_comm (UInt64.ofNat k)]
            rfl

/-- As long as there are words, no id is drawn twice. -/
theorem nodup_drawIds (first : UInt64) {count : Nat} (hcount : count ≤ UInt64.size) :
    (drawIds first count).Nodup := by
  induction count generalizing first with
  | zero => exact List.nodup_nil
  | succ count ih =>
      rw [drawIds, List.nodup_cons]
      refine ⟨?_, ih (first + 1) (Nat.le_of_succ_le hcount)⟩
      rw [mem_drawIds]
      rintro ⟨k, hk, heq⟩
      have hone : UInt64.ofNat (k + 1) = 0 := by
        rw [UInt64.add_assoc] at heq
        have hzero := UInt64.left_eq_add.mp heq
        rw [UInt64.ofNat_add, UInt64.add_comm]
        exact hzero
      have hnats := congrArg UInt64.toNat hone
      rw [UInt64.toNat_ofNat_of_lt' (by omega)] at hnats
      cases hnats

end Table

namespace Client

variable {c : Client} {event : String} {m : Move}

/-- The listeners of an event by the moves of a run, from those who are there: whoever has to go
goes, and whoever comes is the last. -/
def enrolledFrom (c : Client) (event : String) (entries : List (UInt64 × Listener)) :
    List Move → List (UInt64 × Listener)
  | [] => entries
  | m :: rest =>
    (c.move m).enrolledFrom event
      ((entries.filter fun entry => c.goes? event m ≠ some entry.1) ++ (c.comes? event m).toList)
      rest

/-- The listeners of an event by the moves of a run, at the beginning of which there are none. -/
def enrolled (c : Client) (event : String) (moves : List Move) : List (UInt64 × Listener) :=
  c.enrolledFrom event [] moves

/-- The subscriptions that the moves of a run bring to success. -/
def enrolments (c : Client) : List Move → List (String × UInt64 × Listener)
  | [] => []
  | m :: rest => (c.enrols? m).toList ++ (c.move m).enrolments rest

/-- Who is enrolled for an event, if for that event. -/
def entryFor? (event : String) (enrolment : String × UInt64 × Listener) :
    Option (UInt64 × Listener) :=
  if enrolment.1 = event then some enrolment.2 else none

theorem comes?_eq (c : Client) (event : String) (m : Move) :
    c.comes? event m = (c.enrols? m).bind (entryFor? event) := by
  rw [comes?]
  cases c.enrols? m <;> rfl

/-- The listeners that an event has are those enrolled. -/
theorem listenersOf_run (hnumbered : c.Numbered) (moves : List Move) (event : String) :
    (c.run moves).listenersOf event = c.enrolledFrom event (c.listenersOf event) moves := by
  induction moves generalizing c with
  | nil => rfl
  | cons m rest ih =>
      rw [run_cons, enrolledFrom, ← listenersOf_move hnumbered]
      exact ih (hnumbered.move m)

/-- A listener stays as long as it does not have to go. -/
theorem mem_listenersOf_run (hnumbered : c.Numbered) {moves : List Move}
    {entry : UInt64 × Listener} (hmem : entry ∈ c.listenersOf event)
    (hstays : c.Throughout (fun client m => client.goes? event m ≠ some entry.1) moves) :
    entry ∈ (c.run moves).listenersOf event := by
  induction moves generalizing c with
  | nil => exact hmem
  | cons m rest ih =>
      refine ih (hnumbered.move m) ?_ hstays.2
      rw [listenersOf_move hnumbered, List.mem_append, List.mem_filter]
      exact Or.inl ⟨hmem, by simpa using hstays.1⟩

theorem mem_listenersOf_of_comes (hnumbered : c.Numbered) {entry : UInt64 × Listener}
    (hcomes : c.comes? event m = some entry) : entry ∈ (c.move m).listenersOf event := by
  rw [listenersOf_move hnumbered, hcomes]
  simp

/-- Those enrolled for an event have been enrolled for it in this order. -/
theorem enrolledFrom_sublist (c : Client) (event : String) (entries : List (UInt64 × Listener))
    (moves : List Move) :
    (c.enrolledFrom event entries moves).Sublist
      (entries ++ (c.enrolments moves).filterMap (entryFor? event)) := by
  induction moves generalizing c entries with
  | nil => simp [enrolledFrom, enrolments]
  | cons m rest ih =>
      have hcomes : ((c.enrols? m).toList).filterMap (entryFor? event) =
          (c.comes? event m).toList := by
        rw [comes?_eq]
        cases c.enrols? m with
        | none => rfl
        | some enrolment => cases h : entryFor? event enrolment <;> simp [h]
      rw [enrolledFrom, enrolments, List.filterMap_append, hcomes, ← List.append_assoc]
      exact (ih _ _).trans ((List.filter_sublist.append (.refl _)).append (.refl _))

/-- The listeners of a run get ids drawn in a row. -/
theorem ids_enrolments (hnumbered : c.Numbered) (moves : List Move) :
    (c.enrolments moves).map (fun enrolment => enrolment.2.1) =
      Table.drawIds c.nextListener (c.enrolments moves).length := by
  induction moves generalizing c with
  | nil => rfl
  | cons m rest ih =>
      have hrest := ih (hnumbered.move m)
      rw [enrolments]
      cases enrolCase hnumbered m with
      | nobody hsettles hnext =>
          have hnone : c.enrols? m = none := by
            rw [Option.eq_none_iff_forall_ne_some]
            exact fun enrolment henrols => hsettles _ _ _ (enrols?_eq_some henrols)
          rw [hnone, ← hnext]
          exact hrest
      | somebody hsettles hnext =>
          rw [hnext] at hrest
          simp [Table.drawIds, enrols?, hsettles, hrest]

theorem map_filterMap_sublist (event : String) (enrolments : List (String × UInt64 × Listener)) :
    ((enrolments.filterMap (entryFor? event)).map Prod.fst).Sublist
      (enrolments.map fun enrolment => enrolment.2.1) := by
  induction enrolments with
  | nil => exact .slnil
  | cons enrolment rest ih =>
      by_cases heq : enrolment.1 = event
      · simpa [entryFor?, heq] using ih
      · simpa [entryFor?, heq] using ih.cons enrolment.2.1

/-- The listeners are filed under one entry an event, and under none where there are none. -/
structure Tidy (c : Client) : Prop where
  keys : (Dictionary.keys c.events).Nodup
  nonempty : ∀ event, c.events.get? event ≠ some []

namespace Tidy

variable {c' : Client}

theorem ofSettings (settings : Settings) (link : Link) : (ofSettings settings link).Tidy where
  keys := List.nodup_nil
  nonempty := by
    intro event hget
    cases hget

theorem of_events (h : c.Tidy) (hevents : c'.events = c.events) : c'.Tidy :=
  ⟨hevents ▸ h.keys, hevents ▸ h.nonempty⟩

theorem of_put (h : c.Tidy) {entries : List (UInt64 × Listener)} (hentries : entries ≠ [])
    (hevents : c'.events = c.events.put event entries) : c'.Tidy := by
  refine ⟨hevents ▸ Dictionary.nodup_keys_put h.keys _ _, fun event' => ?_⟩
  rw [hevents, Dictionary.get?_put]
  split
  · exact fun hnil => hentries (Option.some.inj hnil)
  · exact h.nonempty event'

theorem of_erase (h : c.Tidy) (hevents : c'.events = c.events.erase event) : c'.Tidy := by
  refine ⟨hevents ▸ Dictionary.nodup_keys_erase h.keys _, fun event' => ?_⟩
  rw [hevents, Dictionary.get?_erase]
  split
  · simp
  · exact h.nonempty event'

theorem attach (h : c.Tidy) (event : String) (listener : Listener) :
    (c.attach event listener).1.Tidy :=
  h.of_put (by simp) rfl

theorem enterChange (h : c.Tidy) (change : Change) : (c.enterChange change).1.Tidy := by
  cases change with
  | subscribe event listener =>
      rw [Client.enterChange]
      split
      · exact h.attach event listener
      · exact h
  | unsubscribe event id =>
      cases detachCase c event id with
      | unknown _ henter => exact h.of_events (by rw [henter])
      | last _ _ henter => exact h.of_erase (show _ = c.events.erase event by rw [henter])
      | others hkept henter => exact h.of_put hkept (by rw [henter])
  | provide | revoke => exact h.of_events (events_enterChange rfl)

/-- Every move keeps the dictionary of listeners tidy. -/
theorem move (h : c.Tidy) (hnumbered : c.Numbered) (m : Move) : (c.move m).Tidy := by
  cases rollCase hnumbered m with
  | still hpasses hsettles hroll => exact h.of_events (congrArg Roll.events hroll)
  | @passes change hpasses hsettles hroll =>
      exact (h.enterChange change).of_events (congrArg Roll.events hroll)
  | @settles i change _ _ _ hm hcalling hpasses hsettles hroll =>
      have hevents : (c.move m).events = _ := congrArg Roll.events hroll
      cases change with
      | subscribe event listener => exact (h.attach event listener).of_events hevents
      | unsubscribe | provide | revoke => exact h.of_events hevents

theorem run (h : c.Tidy) (hnumbered : c.Numbered) (moves : List Move) : (c.run moves).Tidy := by
  induction moves generalizing c with
  | nil => exact h
  | cons m rest ih => exact ih (h.move hnumbered m) (hnumbered.move m)

/-- An event is on file exactly if it has listeners. -/
theorem isSubscribed_eq (h : c.Tidy) (event : String) :
    c.isSubscribed event = decide (0 < c.listenerCount event) := by
  have hnonempty := h.nonempty event
  rw [isSubscribed, Dictionary.contains, listenerCount]
  cases hget : c.events.get? event with
  | none => rfl
  | some entries =>
      cases entries with
      | nil => exact absurd hget hnonempty
      | cons entry rest => simp

theorem listenersOf_of_mem (h : c.Tidy) {entry : String × List (UInt64 × Listener)}
    (hmem : entry ∈ c.events) : c.listenersOf entry.1 = entry.2 := by
  rw [listenersOf, Dictionary.get?_of_mem h.keys hmem]
  rfl

/-- No two listeners have the same id if all have been enrolled under ids of their own. -/
theorem nodup_ids (h : c.Tidy) {enrolments : List (String × UInt64 × Listener)}
    (hids : (enrolments.map fun enrolment => enrolment.2.1).Nodup)
    (henrolled : ∀ event,
      (c.listenersOf event).Sublist (enrolments.filterMap (entryFor? event))) :
    (c.events.flatMap fun entry => entry.2.map Prod.fst).Nodup := by
  rw [List.nodup_flatMap]
  constructor
  · intro entry hentry
    rw [← h.listenersOf_of_mem hentry]
    exact (((henrolled entry.1).map Prod.fst).trans (map_filterMap_sublist _ _)).nodup hids
  · have hkeys : c.events.Pairwise fun a b => a.1 ≠ b.1 := List.pairwise_map.mp h.keys
    have hmem : ∀ entry ∈ c.events, ∀ l ∈ entry.2, (entry.1, l) ∈ enrolments := by
      intro entry hentry l hl
      rw [← h.listenersOf_of_mem hentry] at hl
      obtain ⟨enrolment, henrolment, hfor⟩ := List.mem_filterMap.mp ((henrolled _).mem hl)
      rw [entryFor?] at hfor
      split at hfor
      · next heq =>
          cases hfor
          exact heq ▸ henrolment
      · cases hfor
    refine hkeys.imp_of_mem fun {a b} ha hb hne => ?_
    intro id hid hid'
    obtain ⟨l, hl, rfl⟩ := List.mem_map.mp hid
    obtain ⟨l', hl', hsame⟩ := List.mem_map.mp hid'
    have heq := List.inj_on_of_nodup_map hids (hmem a ha l hl) (hmem b hb l' hl') hsame.symm
    exact hne (Prod.mk.inj heq).1

end Tidy

end Client

end GatewayClient
