/-
Dictionaries: lists of pairs with one entry a key, in the order in which the keys came.  The view is
`get?`; every operation says what it does to it.
-/

namespace GatewayClient

universe u v

/-- Values by key. -/
abbrev Dictionary (κ : Type u) (α : Type v) :=
  List (κ × α)

namespace Dictionary

variable {κ : Type u} {α : Type v} [DecidableEq κ]

/-- The value of a key. -/
def get? (d : Dictionary κ α) (key : κ) : Option α :=
  match d with
  | [] => none
  | (k, a) :: rest => if k = key then some a else get? rest key

/-- Whether a key has a value. -/
def contains (d : Dictionary κ α) (key : κ) : Bool :=
  (d.get? key).isSome

/-- Gives a key a value, in its old place or at the end. -/
def put (d : Dictionary κ α) (key : κ) (value : α) : Dictionary κ α :=
  match d with
  | [] => [(key, value)]
  | (k, a) :: rest => if k = key then (key, value) :: rest else (k, a) :: put rest key value

/-- Takes a key's value away. -/
def erase (d : Dictionary κ α) (key : κ) : Dictionary κ α :=
  match d with
  | [] => []
  | (k, a) :: rest => if k = key then erase rest key else (k, a) :: erase rest key

/-- The keys in order. -/
def keys (d : Dictionary κ α) : List κ :=
  d.map Prod.fst

@[simp] theorem get?_nil (key : κ) : get? ([] : Dictionary κ α) key = none := rfl

theorem get?_put (d : Dictionary κ α) (key other : κ) (value : α) :
    get? (put d key value) other = if key = other then some value else get? d other := by
  induction d with
  | nil => simp [put, get?]
  | cons entry rest ih =>
    obtain ⟨k, a⟩ := entry
    rw [put]
    split
    · next hk =>
      subst hk
      by_cases ho : k = other <;> simp [get?, ho]
    · next hk =>
      by_cases hko : k = other
      · have hne : key ≠ other := fun h => hk (hko.trans h.symm)
        simp [get?, hko, hne]
      · simp [get?, hko, ih]

theorem get?_erase (d : Dictionary κ α) (key other : κ) :
    get? (erase d key) other = if key = other then none else get? d other := by
  induction d with
  | nil => simp [erase]
  | cons entry rest ih =>
    obtain ⟨k, a⟩ := entry
    rw [erase]
    split
    · next hk =>
      subst hk
      by_cases ho : k = other
      · subst ho
        simpa using ih
      · simp [get?, ho, ih]
    · next hk =>
      by_cases hko : k = other
      · have hne : key ≠ other := fun h => hk (hko.trans h.symm)
        simp [get?, hko, hne]
      · simp [get?, hko, ih]

end Dictionary

end GatewayClient
