/-
The values that frames carry.  An object lists its members; `putMember` keeps them in ascending
order of their keys with one member a key, so two objects built by it are equal when they hold the
same.
-/
import GatewayClient.Binary64

namespace GatewayClient

/-- A JSON value.  Whole numbers in `[-2^63, 2^64)` are integers, all other numbers are binary64. -/
inductive Json where
  | null
  | bool (value : Bool)
  | integer (value : Int)
  | double (value : Binary64)
  | string (text : String)
  | array (items : List Json)
  | object (members : List (String × Json))
deriving Repr

namespace Json

mutual

/-- Equality of values is decidable, member by member. -/
def decEq : (a b : Json) → Decidable (a = b)
  | .null, .null => isTrue rfl
  | .bool a, .bool b => decidable_of_iff (a = b) (by simp)
  | .integer a, .integer b => decidable_of_iff (a = b) (by simp)
  | .double a, .double b => decidable_of_iff (a = b) (by simp)
  | .string a, .string b => decidable_of_iff (a = b) (by simp)
  | .array a, .array b => @decidable_of_iff _ (a = b) (by simp) (decEqItems a b)
  | .object a, .object b => @decidable_of_iff _ (a = b) (by simp) (decEqMembers a b)
  | .null, .bool _ | .null, .integer _ | .null, .double _ | .null, .string _ | .null, .array _
  | .null, .object _ => isFalse (by simp)
  | .bool _, .null | .bool _, .integer _ | .bool _, .double _ | .bool _, .string _
  | .bool _, .array _ | .bool _, .object _ => isFalse (by simp)
  | .integer _, .null | .integer _, .bool _ | .integer _, .double _ | .integer _, .string _
  | .integer _, .array _ | .integer _, .object _ => isFalse (by simp)
  | .double _, .null | .double _, .bool _ | .double _, .integer _ | .double _, .string _
  | .double _, .array _ | .double _, .object _ => isFalse (by simp)
  | .string _, .null | .string _, .bool _ | .string _, .integer _ | .string _, .double _
  | .string _, .array _ | .string _, .object _ => isFalse (by simp)
  | .array _, .null | .array _, .bool _ | .array _, .integer _ | .array _, .double _
  | .array _, .string _ | .array _, .object _ => isFalse (by simp)
  | .object _, .null | .object _, .bool _ | .object _, .integer _ | .object _, .double _
  | .object _, .string _ | .object _, .array _ => isFalse (by simp)

def decEqItems : (a b : List Json) → Decidable (a = b)
  | [], [] => isTrue rfl
  | [], _ :: _ => isFalse (by simp)
  | _ :: _, [] => isFalse (by simp)
  | x :: xs, y :: ys =>
    match decEq x y, decEqItems xs ys with
    | isTrue h, isTrue hs => isTrue (by rw [h, hs])
    | isFalse h, _ => isFalse (by simp [h])
    | _, isFalse hs => isFalse (by simp [hs])

def decEqMembers : (a b : List (String × Json)) → Decidable (a = b)
  | [], [] => isTrue rfl
  | [], _ :: _ => isFalse (by simp)
  | _ :: _, [] => isFalse (by simp)
  | (k, x) :: xs, (l, y) :: ys =>
    if hk : k = l then
      match decEq x y, decEqMembers xs ys with
      | isTrue h, isTrue hs => isTrue (by rw [hk, h, hs])
      | isFalse h, _ => isFalse (by simp [h])
      | _, isFalse hs => isFalse (by simp [hs])
    else isFalse (by simp [hk])

end

instance : DecidableEq Json := decEq

instance : Inhabited Json := ⟨.null⟩

/-- The value under `key`, if there is a member of that key. -/
def member? (key : String) : List (String × Json) → Option Json
  | [] => none
  | (k, v) :: rest => if k = key then some v else member? key rest

/-- Sets the member `key`: replaces its value, or inserts it before the first greater key. -/
def putMember (key : String) (value : Json) : List (String × Json) → List (String × Json)
  | [] => [(key, value)]
  | (k, v) :: rest =>
    if k = key then (key, value) :: rest
    else if key < k then (key, value) :: (k, v) :: rest
    else (k, v) :: putMember key value rest

/-- The members in ascending order of their keys; of two with one key the later stays. -/
def sortMembers (members : List (String × Json)) : List (String × Json) :=
  members.foldl (fun sorted m => putMember m.1 m.2 sorted) []

/-- The object with these members. -/
def ofMembers (members : List (String × Json)) : Json :=
  .object (sortMembers members)

/-- The value under `key` of an object; other values have no members. -/
def get? (key : String) : Json → Option Json
  | .object members => member? key members
  | _ => none

/-- The unsigned 64-bit word that an integer in range stands for; `1.0` is none. -/
def toWord? : Json → Option UInt64
  | .integer i => if 0 ≤ i ∧ i.toNat < UInt64.size then some (UInt64.ofNat i.toNat) else none
  | _ => none

def ofWord (n : UInt64) : Json :=
  .integer n.toNat

theorem toWord?_ofWord (n : UInt64) : toWord? (ofWord n) = some n := by
  have hrange : (0 : Int) ≤ (n.toNat : Int) ∧ (n.toNat : Int).toNat < UInt64.size :=
    ⟨Int.natCast_nonneg _, by rw [Int.toNat_natCast]; exact n.toNat_lt⟩
  rw [ofWord, toWord?, if_pos hrange, Int.toNat_natCast, UInt64.ofNat_toNat]

/-- Looking a key up after setting one: the key set has the new value, the others are as before. -/
theorem member?_putMember (key other : String) (value : Json) (members : List (String × Json)) :
    member? other (putMember key value members) =
      if key = other then some value else member? other members := by
  induction members with
  | nil => simp [putMember, member?]
  | cons m rest ih =>
    obtain ⟨k, v⟩ := m
    rw [putMember]
    split
    · next hk =>
      subst hk
      by_cases ho : k = other <;> simp [member?, ho]
    · next hk =>
      split
      · by_cases ho : key = other <;> simp [member?, ho]
      · by_cases hko : k = other
        · have hne : key ≠ other := fun h => hk (hko.trans h.symm)
          simp [member?, hko, hne]
        · simp [member?, hko, ih]

end Json

end GatewayClient
