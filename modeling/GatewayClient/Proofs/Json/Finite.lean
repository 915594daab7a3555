/-
Values whose numbers are all finite.  Rounding gives no infinity and nothing that is not a number,
so no numeral does, and whatever value a text spells has finite numbers only.
-/
import GatewayClient.Json.Reader

namespace GatewayClient

namespace Binary64

variable {x y : Binary64} {negative : Bool} {n d : Nat}

theorem isFinite_ofBits {bits : Nat} (hbits : bits < 2047 * exponentUnit) :
    (ofBits negative bits).isFinite = true := by
  rw [isFinite, decide_eq_true_eq, exponentField, ofBits, UInt64.toNat_ofNat']
  cases negative <;> simp only [signUnit, exponentUnit] at hbits ⊢ <;> simp <;> omega

theorem isFinite_of_ofRatio? (h : ofRatio? negative n d = some x) : x.isFinite = true := by
  rw [ofRatio?] at h
  split at h
  · next hbits =>
      cases h
      exact isFinite_ofBits hbits
  · cases h

theorem isFinite_zero : (zero negative).isFinite = true :=
  isFinite_ofBits (by decide)

theorem isFinite_ofInt (i : Int) : (ofInt i).isFinite = true := by
  rw [ofInt]
  cases h : ofRatio? (decide (i < 0)) i.natAbs 1 with
  | none => exact isFinite_zero
  | some x => exact isFinite_of_ofRatio? h

theorem isFinite_div? {quotient : Binary64} (h : x.div? y = some quotient) :
    quotient.isFinite = true :=
  isFinite_of_ofRatio? h

theorem isFinite_mul? {product : Binary64} (h : x.mul? y = some product) :
    product.isFinite = true :=
  isFinite_of_ofRatio? h

/-- The other sign over the same bits is finite too. -/
theorem isFinite_neg (hx : x.isFinite = true) : x.neg.isFinite = true := by
  apply isFinite_ofBits
  rw [isFinite, decide_eq_true_eq, exponentField] at hx
  have hword := x.word.toNat_lt
  simp only [signUnit, exponentUnit] at hx ⊢
  omega

end Binary64

namespace Json

/-- All numbers in the value are finite. -/
inductive Finite : Json → Prop where
  | null : Finite .null
  | bool (value : Bool) : Finite (.bool value)
  | integer (value : Int) : Finite (.integer value)
  | double (value : Binary64) (hvalue : value.isFinite = true) : Finite (.double value)
  | string (text : String) : Finite (.string text)
  | array (items : List Json) (hitems : ∀ v ∈ items, Finite v) : Finite (.array items)
  | object (members : List (String × Json)) (hmembers : ∀ m ∈ members, Finite m.2) :
    Finite (.object members)

variable {key : String} {v : Json} {members : List (String × Json)} {rest : List Char}

theorem Finite.member? (h : ∀ m ∈ members, Finite m.2) (hmember : member? key members = some v) :
    Finite v := by
  induction members with
  | nil => cases hmember
  | cons head tail ih =>
      obtain ⟨hhead, htail⟩ := List.forall_mem_cons.mp h
      rw [Json.member?] at hmember
      split at hmember
      · cases hmember
        exact hhead
      · exact ih htail hmember

theorem Finite.putMember (hv : Finite v) (h : ∀ m ∈ members, Finite m.2) :
    ∀ m ∈ putMember key v members, Finite m.2 := by
  induction members with
  | nil => exact List.forall_mem_singleton.mpr hv
  | cons head tail ih =>
      obtain ⟨hhead, htail⟩ := List.forall_mem_cons.mp h
      rw [Json.putMember]
      split
      · exact List.forall_mem_cons.mpr ⟨hv, htail⟩
      · split
        · exact List.forall_mem_cons.mpr ⟨hv, h⟩
        · exact List.forall_mem_cons.mpr ⟨hhead, ih htail⟩

theorem Finite.ofMembers (h : ∀ m ∈ members, Finite m.2) : Finite (ofMembers members) := by
  have hsorted : ∀ sorted : List (String × Json), (∀ m ∈ sorted, Finite m.2) →
      ∀ m ∈ members.foldl (fun sorted m => Json.putMember m.1 m.2 sorted) sorted, Finite m.2 := by
    induction members with
    | nil => exact fun sorted hsorted => hsorted
    | cons head tail ih =>
        obtain ⟨hhead, htail⟩ := List.forall_mem_cons.mp h
        exact fun sorted hsorted => ih htail _ (hhead.putMember hsorted)
  exact .object _ (hsorted [] (List.forall_mem_nil _))

namespace Numeral

theorem isFinite_scaleDown {x : Binary64} (hx : x.isFinite = true) (k : Nat) :
    (scaleDown x k).isFinite = true := by
  have hdiv : ∀ (x y : Binary64), x.isFinite = true → ((x.div? y).getD x).isFinite = true := by
    intro x y hx
    cases h : x.div? y with
    | none => exact hx
    | some quotient => exact Binary64.isFinite_div? h
  fun_induction scaleDown x k with
  | case1 x k hk => exact hdiv _ _ hx
  | case2 x k hk hzero => exact hx
  | case3 x k hk hzero ih => exact ih (hdiv _ _ hx)

theorem isFinite_scaled? {significand : Nat} {exponent : Int} {x : Binary64}
    (h : scaled? significand exponent = some x) : x.isFinite = true := by
  have hwhole := Binary64.isFinite_ofInt significand
  rw [scaled?] at h
  split at h
  · cases h
    exact isFinite_scaleDown hwhole _
  · split at h
    · exact Binary64.isFinite_mul? h
    · split at h
      · cases h
        exact hwhole
      · cases h

/-- Whatever number a numeral spells is finite. -/
theorem finite_value? {numeral : Numeral} (h : numeral.value? = some v) : Finite v := by
  have hsigned : ∀ {s : Nat} {e : Int},
      ((scaled? s e).map fun x => .double (if numeral.negative then x.neg else x)) = some v →
        Finite v := by
    intro s e hscaled
    obtain ⟨x, hx, rfl⟩ := Option.map_eq_some_iff.mp hscaled
    refine .double _ ?_
    split
    · exact Binary64.isFinite_neg (isFinite_scaled? hx)
    · exact isFinite_scaled? hx
  rw [value?] at h
  dsimp only at h
  split at h
  · split at h
    · exact hsigned h
    · split at h
      · split at h
        · cases h
          exact .double _ (Binary64.isFinite_neg (Binary64.isFinite_ofInt _))
        · cases h
          exact .integer _
      · cases h
        exact .integer _
  · exact hsigned h

end Numeral

section Nested

variable {item : List Char → Option (Json × List Char)} {cs : List Char} {fuel : Nat}

theorem finite_readItems (hitem : ∀ cs v rest, item cs = some (v, rest) → Finite v)
    {items : List Json} (h : readItems item fuel cs = some (items, rest)) :
    ∀ v ∈ items, Finite v := by
  induction fuel generalizing cs items rest with
  | zero => cases h
  | succ fuel ih =>
      obtain ⟨⟨v, after⟩, hv, hrest⟩ := Option.bind_eq_some_iff.mp h
      dsimp only at hrest
      split at hrest
      · obtain ⟨⟨vs, after'⟩, hvs, hpair⟩ := Option.bind_eq_some_iff.mp hrest
        cases hpair
        exact List.forall_mem_cons.mpr ⟨hitem _ _ _ hv, ih hvs⟩
      · cases hrest
        exact List.forall_mem_singleton.mpr (hitem _ _ _ hv)
      · cases hrest

theorem finite_readMembers (hitem : ∀ cs v rest, item cs = some (v, rest) → Finite v)
    (h : readMembers item fuel cs = some (members, rest)) : ∀ m ∈ members, Finite m.2 := by
  induction fuel generalizing cs members rest with
  | zero => cases h
  | succ fuel ih =>
      obtain ⟨⟨key, after⟩, hkey, hrest⟩ := Option.bind_eq_some_iff.mp h
      obtain ⟨⟨v, after'⟩, hv, hrest⟩ := Option.bind_eq_some_iff.mp hrest
      dsimp only at hrest
      split at hrest
      · obtain ⟨⟨vs, after''⟩, hvs, hpair⟩ := Option.bind_eq_some_iff.mp hrest
        cases hpair
        exact List.forall_mem_cons.mpr ⟨hitem _ _ _ hv, ih hvs⟩
      · cases hrest
        exact List.forall_mem_singleton.mpr (hitem _ _ _ hv)
      · cases hrest

end Nested

theorem finite_readValue {depth : Nat} {cs : List Char} (h : readValue depth cs = some (v, rest)) :
    Finite v := by
  induction depth using Nat.strongRecOn generalizing cs v rest with
  | ind depth ih =>
      rw [readValue.eq_def] at h
      dsimp only at h
      split at h
      · obtain ⟨_, -, hpair⟩ := Option.map_eq_some_iff.mp h
        cases hpair
        exact .null
      · obtain ⟨_, -, hpair⟩ := Option.map_eq_some_iff.mp h
        cases hpair
        exact .bool true
      · obtain ⟨_, -, hpair⟩ := Option.map_eq_some_iff.mp h
        cases hpair
        exact .bool false
      · obtain ⟨_, -, hpair⟩ := Option.map_eq_some_iff.mp h
        cases hpair
        exact .string _
      · split at h
        · cases h
        · next depth =>
            split at h
            · cases h
              exact .array [] (List.forall_mem_nil _)
            · obtain ⟨_, hitems, hpair⟩ := Option.map_eq_some_iff.mp h
              cases hpair
              refine .array _ (finite_readItems (fun _ _ _ hitem => ?_) hitems)
              exact ih depth depth.lt_succ_self hitem
      · split at h
        · cases h
        · next depth =>
            split at h
            · cases h
              exact .object [] (List.forall_mem_nil _)
            · obtain ⟨_, hmembers, hpair⟩ := Option.map_eq_some_iff.mp h
              cases hpair
              refine .ofMembers (finite_readMembers (fun _ _ _ hitem => ?_) hmembers)
              exact ih depth depth.lt_succ_self hitem
      · obtain ⟨⟨numeral, _⟩, -, hrest⟩ := Option.bind_eq_some_iff.mp h
        obtain ⟨_, hvalue, hpair⟩ := Option.bind_eq_some_iff.mp hrest
        cases hpair
        exact Numeral.finite_value? hvalue

/-- Whatever value a text spells has finite numbers only. -/
theorem finite_parse? {text : String} (h : parse? text = some v) : Finite v := by
  obtain ⟨⟨value, rest⟩, hvalue, hrest⟩ := Option.bind_eq_some_iff.mp h
  dsimp only at hrest
  split at hrest
  · cases hrest
    exact finite_readValue hvalue
  · cases hrest

end Json

end GatewayClient
