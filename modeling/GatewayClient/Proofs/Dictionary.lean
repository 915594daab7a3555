/-
Dictionaries with one entry a key: what the operations do to the keys, to the number of entries, and
to which pairs are entries.
-/
import GatewayClient.Dictionary
import Mathlib.Data.List.Nodup

namespace GatewayClient

namespace Dictionary

universe u v

variable {κ : Type u} {α : Type v} [DecidableEq κ]

@[simp] theorem get?_put_self (d : Dictionary κ α) (key : κ) (value : α) :
    get? (put d key value) key = some value := by
  rw [get?_put, if_pos rfl]

theorem get?_put_of_ne (d : Dictionary κ α) {key other : κ} (value : α) (hne : other ≠ key) :
    get? (put d key value) other = get? d other := by
  rw [get?_put, if_neg (Ne.symm hne)]

@[simp] theorem get?_erase_self (d : Dictionary κ α) (key : κ) : get? (erase d key) key = none := by
  rw [get?_erase, if_pos rfl]

theorem get?_erase_of_ne (d : Dictionary κ α) {key other : κ} (hne : other ≠ key) :
    get? (erase d key) other = get? d other := by
  rw [get?_erase, if_neg (Ne.symm hne)]

/-- A key has a value exactly if it is among the keys. -/
theorem mem_keys (d : Dictionary κ α) (key : κ) :
    key ∈ keys d ↔ ∃ value, get? d key = some value := by
  induction d with
  | nil => simp [keys]
  | cons entry rest ih =>
      obtain ⟨k, a⟩ := entry
      by_cases hk : k = key
      · simp [keys, get?, hk]
      · have hne : key ≠ k := fun h => hk h.symm
        simpa [keys, get?, hk, hne] using ih

theorem get?_eq_none (d : Dictionary κ α) (key : κ) : get? d key = none ↔ key ∉ keys d := by
  rw [mem_keys, Option.eq_none_iff_forall_ne_some]
  simp

theorem contains_iff (d : Dictionary κ α) (key : κ) : contains d key = true ↔ key ∈ keys d := by
  rw [mem_keys, contains, Option.isSome_iff_exists]

/-- The value of a key is one of its entries. -/
theorem mem_of_get? {d : Dictionary κ α} {key : κ} {value : α} (hget : get? d key = some value) :
    (key, value) ∈ d := by
  induction d with
  | nil => simp at hget
  | cons entry rest ih =>
      obtain ⟨k, a⟩ := entry
      by_cases hk : k = key
      · have ha : a = value := by simpa [get?, hk] using hget
        simp [hk, ha]
      · have htail : get? rest key = some value := by simpa [get?, hk] using hget
        exact List.mem_cons_of_mem _ (ih htail)

/-- With one entry a key, every entry is what its key looks up. -/
theorem get?_of_mem {d : Dictionary κ α} (hkeys : (keys d).Nodup) {key : κ} {value : α}
    (hmem : (key, value) ∈ d) : get? d key = some value := by
  induction d with
  | nil => simp at hmem
  | cons entry rest ih =>
      obtain ⟨k, a⟩ := entry
      simp only [keys, List.map_cons, List.nodup_cons] at hkeys
      rcases List.mem_cons.mp hmem with hhead | htail
      · simp only [Prod.mk.injEq] at hhead
        simp [get?, hhead.1, hhead.2]
      · have hk : k ≠ key := by
          rintro rfl
          exact hkeys.1 (List.mem_map.mpr ⟨_, htail, rfl⟩)
        simpa [get?, hk] using ih hkeys.2 htail

theorem keys_put (d : Dictionary κ α) (key : κ) (value : α) :
    keys (put d key value) = if key ∈ keys d then keys d else keys d ++ [key] := by
  induction d with
  | nil => simp [put, keys]
  | cons entry rest ih =>
      obtain ⟨k, a⟩ := entry
      by_cases hk : k = key
      · simp [put, keys, hk]
      · have hne : key ≠ k := fun h => hk h.symm
        simp only [keys] at ih
        simp only [put, keys, hk, ↓reduceIte, List.map_cons, List.mem_cons, hne, false_or]
        rw [ih]
        by_cases hmem : key ∈ rest.map Prod.fst <;> simp [hmem]

theorem keys_erase (d : Dictionary κ α) (key : κ) :
    keys (erase d key) = (keys d).filter (· ≠ key) := by
  induction d with
  | nil => simp [erase, keys]
  | cons entry rest ih =>
      obtain ⟨k, a⟩ := entry
      simp only [keys] at ih
      by_cases hk : k = key
      · simpa [erase, keys, hk] using ih
      · simpa [erase, keys, hk] using ih

theorem nodup_keys_put {d : Dictionary κ α} (hkeys : (keys d).Nodup) (key : κ) (value : α) :
    (keys (put d key value)).Nodup := by
  rw [keys_put]
  split
  · exact hkeys
  · next hmem => exact List.nodup_append.mpr ⟨hkeys, List.nodup_singleton _, by
      intro a ha b hb
      rw [List.mem_singleton.mp hb]
      rintro rfl
      exact hmem ha⟩

theorem nodup_keys_erase {d : Dictionary κ α} (hkeys : (keys d).Nodup) (key : κ) :
    (keys (erase d key)).Nodup := by
  rw [keys_erase]
  exact hkeys.filter _

omit [DecidableEq κ] in
theorem length_keys (d : Dictionary κ α) : (keys d).length = d.length :=
  List.length_map _

theorem length_put_of_not_mem {d : Dictionary κ α} {key : κ} (hmem : key ∉ keys d) (value : α) :
    (put d key value).length = d.length + 1 := by
  rw [← length_keys, keys_put, if_neg hmem, List.length_append, length_keys, List.length_singleton]

/-- A key that has no value comes last. -/
theorem put_of_get?_eq_none {d : Dictionary κ α} {key : κ} (hget : get? d key = none) (value : α) :
    put d key value = d ++ [(key, value)] := by
  induction d with
  | nil => rfl
  | cons entry rest ih =>
      obtain ⟨k, a⟩ := entry
      rw [get?] at hget
      split at hget
      · cases hget
      · next hk => rw [put, if_neg hk, ih hget, List.cons_append]

/-- Keys can be taken away in any order. -/
theorem erase_comm (d : Dictionary κ α) (key other : κ) :
    erase (erase d key) other = erase (erase d other) key := by
  induction d with
  | nil => rfl
  | cons entry rest ih =>
      simp only [erase]
      split <;> split <;> simp_all [erase]

/-- With one entry a key, taking a key away that has a value takes one entry away. -/
theorem length_erase_of_mem {d : Dictionary κ α} (hkeys : (keys d).Nodup) {key : κ}
    (hmem : key ∈ keys d) : (erase d key).length + 1 = d.length := by
  have hfilter : (keys d).filter (· ≠ key) = (keys d).erase key := by
    rw [hkeys.erase_eq_filter]
    simp only [ne_eq, decide_not]
    rfl
  have hlength := List.length_erase_of_mem hmem
  have hpos := List.length_pos_of_mem hmem
  rw [← length_keys, keys_erase, hfilter, hlength, length_keys] at *
  omega

end Dictionary

end GatewayClient
