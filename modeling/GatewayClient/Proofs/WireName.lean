/-
Wire names tell apart what they name.  A member's name splits into its module, in lower case, and
the member; two properties have the same setter exactly if they have the same event of changes, and
that is when nothing tells them apart but the case of their modules and of their first letters.
-/
import GatewayClient.WireName
import Mathlib.Data.String.Basic
import Mathlib.Tactic.SplitIfs

namespace GatewayClient

namespace WireName

variable {m m' x x' full a b : String} {c d : Char} {cs before after : List Char}

/-- An ASCII letter in upper case. -/
def IsUpper (c : Char) : Prop :=
  'A' ≤ c ∧ c ≤ 'Z'

/-- Two names that differ at most in the ASCII case of their first characters. -/
def SameButFirstCase (x x' : String) : Prop :=
  x.toList.head?.map lowerChar = x'.toList.head?.map lowerChar ∧ x.toList.tail = x'.toList.tail

instance SameButFirstCase.decidable (x x' : String) : Decidable (SameButFirstCase x x') :=
  inferInstanceAs (Decidable (_ ∧ _))

/-- What wire names say of the modules and members that they name.  A member's name splits into the
module in lower case and the member, and setters and change events are told apart up to the case of
the module and of the first character of the property. -/
structure Identifying : Prop where
  split_method : ∀ m x, split? (method m x) = some (lower m, x) ↔
    m ≠ "" ∧ '.' ∉ m.toList ∧ x ≠ ""
  method_of_split : ∀ full a b, split? full = some (a, b) →
    (method a b = full ↔ ∀ c ∈ a.toList, ¬ IsUpper c)
  setter_inj : ∀ m m' x x', '.' ∉ m.toList → '.' ∉ m'.toList →
    (setter m x = setter m' x' ↔ lower m = lower m' ∧ SameButFirstCase x x')
  changeEvent_inj : ∀ m m' x x', '.' ∉ m.toList → '.' ∉ m'.toList →
    (changeEvent m x = changeEvent m' x' ↔ lower m = lower m' ∧ SameButFirstCase x x')
  distinct : ∀ m x, method m x ≠ setter m x ∧ method m x ≠ changeEvent m x ∧
    setter m x ≠ changeEvent m x

theorem toNat_ofNat_of_lt {n : Nat} (hn : n < 128) : (Char.ofNat n).toNat = n := by
  have hvalid : n.isValidChar := Or.inl (Nat.lt_trans hn (by decide))
  rw [Char.ofNat, dif_pos hvalid]
  rfl

theorem toNat_lowerChar (c : Char) :
    (lowerChar c).toNat = if 65 ≤ c.toNat ∧ c.toNat ≤ 90 then c.toNat + 32 else c.toNat := by
  have hiff : ('A' ≤ c ∧ c ≤ 'Z') ↔ 65 ≤ c.toNat ∧ c.toNat ≤ 90 := Iff.rfl
  rw [lowerChar]
  by_cases hletter : 65 ≤ c.toNat ∧ c.toNat ≤ 90
  · rw [if_pos (hiff.mpr hletter), if_pos hletter, toNat_ofNat_of_lt (by omega)]
  · rw [if_neg (mt hiff.mp hletter), if_neg hletter]

theorem toNat_upperChar (c : Char) :
    (upperChar c).toNat = if 97 ≤ c.toNat ∧ c.toNat ≤ 122 then c.toNat - 32 else c.toNat := by
  have hiff : ('a' ≤ c ∧ c ≤ 'z') ↔ 97 ≤ c.toNat ∧ c.toNat ≤ 122 := Iff.rfl
  rw [upperChar]
  by_cases hletter : 97 ≤ c.toNat ∧ c.toNat ≤ 122
  · rw [if_pos (hiff.mpr hletter), if_pos hletter, toNat_ofNat_of_lt (by omega)]
  · rw [if_neg (mt hiff.mp hletter), if_neg hletter]

theorem lowerChar_eq_self : lowerChar c = c ↔ ¬ IsUpper c := by
  have hupper : IsUpper c ↔ 65 ≤ c.toNat ∧ c.toNat ≤ 90 := Iff.rfl
  rw [← Char.toNat_inj, toNat_lowerChar, hupper]
  split_ifs <;> omega

theorem lowerChar_eq_point : lowerChar c = '.' ↔ c = '.' := by
  have hpoint : '.'.toNat = 46 := rfl
  rw [← Char.toNat_inj, ← Char.toNat_inj (c := c), toNat_lowerChar, hpoint]
  split_ifs <;> omega

/-- Characters are the same in upper case if they are in lower case. -/
theorem upperChar_inj : upperChar c = upperChar d ↔ lowerChar c = lowerChar d := by
  rw [← Char.toNat_inj, ← Char.toNat_inj (c := lowerChar c), toNat_upperChar, toNat_upperChar,
    toNat_lowerChar, toNat_lowerChar]
  split_ifs <;> omega

theorem toList_lower (text : String) : (lower text).toList = text.toList.map lowerChar :=
  String.toList_ofList

theorem lower_eq_empty : lower m = "" ↔ m = "" := by
  rw [← String.toList_eq_nil_iff, toList_lower, List.map_eq_nil_iff, String.toList_eq_nil_iff]

theorem lower_eq_self : lower a = a ↔ ∀ c ∈ a.toList, ¬ IsUpper c := by
  have hmap := List.map_inj_left (l := a.toList) (f := lowerChar) (g := id)
  rw [List.map_id] at hmap
  simp only [← String.toList_inj, toList_lower, hmap, id_eq, lowerChar_eq_self]

theorem point_mem_lower : '.' ∈ (lower m).toList ↔ '.' ∈ m.toList := by
  rw [toList_lower, List.mem_map]
  constructor
  · rintro ⟨c, hc, hpoint⟩
    rwa [← lowerChar_eq_point.mp hpoint]
  · exact fun hpoint => ⟨'.', hpoint, rfl⟩

theorem toList_capitalize (name : String) :
    (capitalize name).toList = name.toList.modifyHead upperChar := by
  rw [capitalize]
  cases name.toList with
  | nil => rfl
  | cons c rest => exact String.toList_ofList

theorem length_capitalize (name : String) : (capitalize name).length = name.length := by
  rw [← String.length_toList, toList_capitalize, List.length_modifyHead, String.length_toList]

theorem capitalize_inj : capitalize x = capitalize x' ↔ SameButFirstCase x x' := by
  rw [← String.toList_inj, toList_capitalize, toList_capitalize, SameButFirstCase]
  cases x.toList with
  | nil => cases x'.toList <;> simp
  | cons c rest => cases x'.toList <;> simp [upperChar_inj]

/-- A text splits at its first point. -/
theorem splitPoint_eq_some_iff :
    splitPoint cs = some (before, after) ↔ cs = before ++ '.' :: after ∧ '.' ∉ before := by
  induction cs generalizing before with
  | nil => simp [splitPoint]
  | cons c cs ih =>
      by_cases hpoint : c = '.'
      · subst hpoint
        cases before with
        | nil => simp [splitPoint]
        | cons d before =>
            refine iff_of_false nofun ?_
            rintro ⟨heq, hnot⟩
            rw [List.cons_append, List.cons.injEq] at heq
            exact hnot (heq.1 ▸ List.mem_cons_self)
      · have hsplit : splitPoint (c :: cs) =
            (splitPoint cs).map fun parts => (c :: parts.1, parts.2) := by
          rw [splitPoint]
          exact hpoint
        rw [hsplit]
        cases before with
        | nil => simp [hpoint]
        | cons d before =>
            have hne : c = d → '.' ≠ d := fun heq hd => hpoint (heq.trans hd.symm)
            simp only [Option.map_eq_some_iff, Prod.exists, Prod.mk.injEq, List.cons.injEq,
              List.cons_append, List.mem_cons, not_or]
            constructor
            · rintro ⟨before', after', hsome, ⟨rfl, rfl⟩, rfl⟩
              obtain ⟨rfl, hnot⟩ := ih.mp hsome
              exact ⟨⟨rfl, rfl⟩, hne rfl, hnot⟩
            · rintro ⟨⟨rfl, rfl⟩, -, hnot⟩
              exact ⟨before, after, ih.mpr ⟨rfl, hnot⟩, ⟨rfl, rfl⟩, rfl⟩

theorem toList_method (m x : String) :
    (method m x).toList = (lower m).toList ++ '.' :: x.toList := by
  rw [method, String.toList_append, String.toList_append, List.append_assoc]
  rfl

theorem split?_eq_some_iff : split? full = some (a, b) ↔
    full.toList = a.toList ++ '.' :: b.toList ∧ '.' ∉ a.toList ∧ a ≠ "" ∧ b ≠ "" := by
  rw [← and_assoc, ← splitPoint_eq_some_iff, split?]
  cases hsplit : splitPoint full.toList with
  | none => simp
  | some parts =>
      obtain ⟨before, after⟩ := parts
      have hbefore : before = a.toList ↔ String.ofList before = a := by
        rw [← String.toList_inj, String.toList_ofList]
      have hafter : after = b.toList ↔ String.ofList after = b := by
        rw [← String.toList_inj, String.toList_ofList]
      simp only [List.isEmpty_iff, Option.some.injEq, Prod.mk.injEq]
      split_ifs with hempty
      · refine iff_of_false nofun ?_
        rintro ⟨⟨rfl, rfl⟩, ha, hb⟩
        rcases hempty with hnil | hnil
        · exact ha (String.toList_eq_nil_iff.mp hnil)
        · exact hb (String.toList_eq_nil_iff.mp hnil)
      · rw [Option.some.injEq, Prod.mk.injEq, hbefore, hafter]
        refine ⟨fun h => ⟨h, ?_, ?_⟩, And.left⟩
        · rintro rfl
          exact hempty (Or.inl (hbefore.mpr h.1))
        · rintro rfl
          exact hempty (Or.inr (hafter.mpr h.2))

/-- Where the modules have no points, two names are the same if their modules are in lower case and
their members are. -/
theorem method_inj (hm : '.' ∉ m.toList) (hm' : '.' ∉ m'.toList) :
    method m x = method m' x' ↔ lower m = lower m' ∧ x = x' := by
  constructor
  · intro heq
    have hsplit : splitPoint (method m x).toList = some ((lower m).toList, x.toList) :=
      splitPoint_eq_some_iff.mpr ⟨toList_method m x, mt point_mem_lower.mp hm⟩
    have hsplit' : splitPoint (method m x).toList = some ((lower m').toList, x'.toList) :=
      splitPoint_eq_some_iff.mpr ⟨heq ▸ toList_method m' x', mt point_mem_lower.mp hm'⟩
    rw [hsplit, Option.some.injEq, Prod.mk.injEq, String.toList_inj, String.toList_inj] at hsplit'
    exact hsplit'
  · rintro ⟨hlower, rfl⟩
    rw [method, method, hlower]

/-- The names of different members of one module are different. -/
theorem method_ne (h : x ≠ x') : method m x ≠ method m x' := by
  rw [method, method, Ne, String.append_right_inj]
  exact h

/-- Wire names tell the modules and members that they name apart. -/
theorem names_identify : Identifying where
  split_method := by
    intro m x
    rw [split?_eq_some_iff, point_mem_lower, Ne, lower_eq_empty]
    constructor
    · rintro ⟨-, hpoint, hm, hx⟩
      exact ⟨hm, hpoint, hx⟩
    · rintro ⟨hm, hpoint, hx⟩
      exact ⟨toList_method m x, hpoint, hm, hx⟩
  method_of_split := by
    intro full a b hsplit
    obtain ⟨hfull, -⟩ := split?_eq_some_iff.mp hsplit
    rw [← lower_eq_self, ← String.toList_inj, toList_method, hfull, List.append_left_inj,
      String.toList_inj]
  setter_inj := by
    intro m m' x x' hm hm'
    rw [setter, setter, method_inj hm hm', String.append_right_inj, capitalize_inj]
  changeEvent_inj := by
    intro m m' x x' hm hm'
    rw [changeEvent, changeEvent, method_inj hm hm', String.append_left_inj,
      String.append_right_inj, capitalize_inj]
  distinct := by
    intro m x
    have hset : ("set" ++ capitalize x).length = 3 + x.length := by
      rw [String.length_append, length_capitalize]
      rfl
    have hchanged : ("on" ++ capitalize x ++ "Changed").length = 9 + x.length := by
      rw [String.length_append, String.length_append, length_capitalize]
      exact Nat.add_right_comm 2 x.length 7
    refine ⟨method_ne fun heq => ?_, method_ne fun heq => ?_, method_ne fun heq => ?_⟩
    · have hlength := congrArg String.length heq
      omega
    · have hlength := congrArg String.length heq
      omega
    · have hlength := congrArg String.length heq
      omega

/-- A property whose name begins in upper case has the setter of the one that does not. -/
example : setter "Device" "Name" = setter "device" "name" ∧ ¬ SameButFirstCase "name" "naMe" := by
  decide

end WireName

end GatewayClient
