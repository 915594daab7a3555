/-
Codecs that read back what they write, and what they can read at all.  A record reads back if the
keys of its fields differ and every field reads back; a field that is left out reads back as what
its absence stands for.  Whatever a record is read from, each of its fields has a value that the
field's codec gives or that its absence stands for.
-/
import GatewayClient.Shape.Codec
import Mathlib.Data.List.Nodup

namespace GatewayClient

namespace Json

variable {key : String} {members : List (String × Json)}

theorem member?_eq_none (hkey : key ∉ members.map Prod.fst) : member? key members = none := by
  induction members with
  | nil => rfl
  | cons head rest ih =>
      obtain ⟨k, v⟩ := head
      obtain ⟨hhead, hrest⟩ := not_or.mp (mt List.mem_cons.mpr hkey)
      rw [member?, if_neg (Ne.symm hhead), ih hrest]

/-- Members put one after the other are found, and else those that were there. -/
theorem member?_foldl_putMember (hkeys : (members.map Prod.fst).Nodup) (key : String)
    (sorted : List (String × Json)) :
    member? key (members.foldl (fun sorted m => putMember m.1 m.2 sorted) sorted) =
      (member? key members).or (member? key sorted) := by
  induction members generalizing sorted with
  | nil => rfl
  | cons head rest ih =>
      obtain ⟨k, v⟩ := head
      obtain ⟨hhead, hrest⟩ := List.nodup_cons.mp hkeys
      rw [List.foldl_cons, ih hrest, member?_putMember, member?]
      by_cases hk : k = key
      · rw [if_pos hk, if_pos hk, member?_eq_none (hk ▸ hhead), Option.none_or, Option.some_or]
      · rw [if_neg hk, if_neg hk]

/-- Sorting members of different keys changes what is found under none. -/
theorem member?_sortMembers (hkeys : (members.map Prod.fst).Nodup) (key : String) :
    member? key (sortMembers members) = member? key members := by
  rw [sortMembers, member?_foldl_putMember hkeys, member?, Option.or_none]

end Json

namespace Codec

variable {α β : Type}

/-- The codec reads a value back from what it writes for it. -/
def Reads (c : Codec α) (a : α) : Prop :=
  c.decode (c.encode a) = some a

theorem value_reads (v : Json) : value.Reads v := rfl

theorem string_reads (text : String) : string.Reads text := rfl

theorem int32_reads (n : Int32) : int32.Reads n := by
  have hlow := n.le_toInt
  have hhigh := n.toInt_lt
  have hrange : -2147483648 ≤ n.toInt ∧ n.toInt ≤ 2147483647 := by omega
  change (if -2147483648 ≤ n.toInt ∧ n.toInt ≤ 2147483647 then some n.toInt else none).map
    Int32.ofInt = some n
  rw [if_pos hrange, Option.map_some, Int32.ofInt_toInt]

/-- An optional value reads back if it reads back where there is one and is not written null. -/
theorem optional_reads {c : Codec α} {a : Option α}
    (h : ∀ b, a = some b → c.Reads b ∧ c.encode b ≠ .null) : c.optional.Reads a := by
  cases a with
  | none => rfl
  | some b =>
      obtain ⟨hreads, hnull⟩ := h b rfl
      rw [Reads, optional]
      dsimp only
      split
      · next heq => exact absurd heq hnull
      · rw [hreads, Option.map_some]

theorem convert_reads {c : Codec α} {make : α → β} {parts : β → α} {b : β}
    (hmake : make (parts b) = b) (h : c.Reads (parts b)) : (c.convert make parts).Reads b := by
  change (c.decode (c.encode (parts b))).map make = some b
  rw [h, Option.map_some, hmake]

end Codec

namespace Field

variable {α : Type}

/-- The field reads a value back from its member, or from none where the value is left out. -/
def Reads (f : Field α) (a : α) : Prop :=
  f.ofMember? (if f.omits a then none else some (f.codec.encode a)) = some a

/-- The field can have this value: its codec gives it, or its absence stands for it. -/
def Gives (f : Field α) (a : α) : Prop :=
  f.missing = some a ∨ f.absent = some a ∨ ∃ v, f.codec.decode v = some a

theorem required_reads {c : Codec α} {a : α} (key : String) (h : c.Reads a) :
    (required key c).Reads a :=
  h

theorem defaulted_reads {c : Codec α} {a : α} (key : String) (value : α) (h : c.Reads a) :
    (defaulted key c value).Reads a :=
  h

theorem optional_reads {c : Codec α} {a : Option α} (key : String)
    (h : ∀ b, a = some b → c.Reads b ∧ c.encode b ≠ .null) : (optional key c).Reads a := by
  cases a with
  | none => rfl
  | some b => exact Codec.optional_reads h

/-- A field that has to be there is read from what is under its key. -/
theorem ofMember?_required (key : String) (c : Codec α) (member : Option Json) :
    (required key c).ofMember? member = member.bind c.decode := by
  cases member <;> rfl

theorem gives_of_ofMember? {f : Field α} {a : α} {member : Option Json}
    (h : f.ofMember? member = some a) : f.Gives a := by
  cases member with
  | none => exact .inl h
  | some v => exact .inr (.inr ⟨v, h⟩)

/-- An optional field for any value never gives null, which is read as none. -/
theorem ne_null_of_gives {key : String} {a : Option Json}
    (h : (optional key Codec.value).Gives a) : a ≠ some .null := by
  rintro rfl
  rcases h with hmissing | habsent | ⟨v, hread⟩
  · cases hmissing
  · cases habsent
  · cases v <;> cases hread

end Field

namespace Fields

/-- Every field reads its value back. -/
def Reads : {γ : Type} → Fields γ → γ → Prop
  | _, nil, () => True
  | _, cons first rest, (a, b) => first.Reads a ∧ rest.Reads b

/-- Every field can have its value. -/
def Gives : {γ : Type} → Fields γ → γ → Prop
  | _, nil, () => True
  | _, cons first rest, (a, b) => first.Gives a ∧ rest.Gives b

variable {γ : Type} {fields : Fields γ} {g : γ}

theorem keys_toMembers (fields : Fields γ) (g : γ) :
    ((fields.toMembers g).map Prod.fst).Sublist fields.keys := by
  induction fields with
  | nil => exact .slnil
  | cons first rest ih =>
      obtain ⟨a, b⟩ := g
      rw [toMembers, keys]
      split
      · exact (ih b).cons _
      · exact (ih b).cons_cons _

/-- Only what is under the keys of the fields is looked at. -/
theorem ofMembers?_congr {members members' : List (String × Json)}
    (h : ∀ key ∈ fields.keys, Json.member? key members = Json.member? key members') :
    fields.ofMembers? members = fields.ofMembers? members' := by
  induction fields with
  | nil => rfl
  | cons first rest ih =>
      obtain ⟨hhead, hrest⟩ := List.forall_mem_cons.mp h
      rw [ofMembers?, ofMembers?, hhead, ih hrest]

theorem ofMembers?_toMembers (hkeys : fields.keys.Nodup) (h : fields.Reads g) :
    fields.ofMembers? (fields.toMembers g) = some g := by
  induction fields with
  | nil => rfl
  | cons first rest ih =>
      obtain ⟨a, b⟩ := g
      obtain ⟨hfirst, hrest⟩ := h
      obtain ⟨hnew, hkeys⟩ := List.nodup_cons.mp hkeys
      have habsent : Json.member? first.key (rest.toMembers b) = none :=
        Json.member?_eq_none fun hmem => hnew ((rest.keys_toMembers b).subset hmem)
      have hhead : Json.member? first.key ((cons first rest).toMembers (a, b)) =
          if first.omits a then none else some (first.codec.encode a) := by
        rw [toMembers]
        split
        · exact habsent
        · rw [Json.member?, if_pos rfl]
      -- The member of the first field, if there is one, is none of those of the rest.
      have htail : rest.ofMembers? ((cons first rest).toMembers (a, b)) = some b := by
        rw [← ih hkeys hrest]
        refine ofMembers?_congr fun key hkey => ?_
        rw [toMembers]
        split
        · rfl
        · rw [Json.member?, if_neg]
          rintro rfl
          exact hnew hkey
      rw [ofMembers?, hhead, hfirst, htail]
      rfl

/-- A record reads back if the keys of its fields differ and every field reads back. -/
theorem record_reads (hkeys : fields.keys.Nodup) (h : fields.Reads g) : fields.record.Reads g := by
  have hnodup := hkeys.sublist (fields.keys_toMembers g)
  change fields.ofMembers? (Json.sortMembers (fields.toMembers g)) = some g
  rw [← ofMembers?_toMembers hkeys h]
  exact ofMembers?_congr fun key _ => Json.member?_sortMembers hnodup key

theorem gives_of_ofMembers? {members : List (String × Json)}
    (h : fields.ofMembers? members = some g) : fields.Gives g := by
  induction fields with
  | nil => trivial
  | cons first rest ih =>
      obtain ⟨a, ha, hrest⟩ := Option.bind_eq_some_iff.mp h
      obtain ⟨b, hb, hpair⟩ := Option.bind_eq_some_iff.mp hrest
      cases hpair
      exact ⟨Field.gives_of_ofMember? ha, ih hb⟩

theorem gives_of_ofItems? {items : List Json} (h : fields.ofItems? items = some g) :
    fields.Gives g := by
  induction fields generalizing items with
  | nil => trivial
  | cons first rest ih =>
      cases items with
      | nil =>
          obtain ⟨a, ha, hrest⟩ := Option.bind_eq_some_iff.mp h
          obtain ⟨b, hb, hpair⟩ := Option.bind_eq_some_iff.mp hrest
          cases hpair
          exact ⟨.inr (.inl ha), ih hb⟩
      | cons v items =>
          obtain ⟨a, ha, hrest⟩ := Option.bind_eq_some_iff.mp h
          obtain ⟨b, hb, hpair⟩ := Option.bind_eq_some_iff.mp hrest
          cases hpair
          exact ⟨.inr (.inr ⟨v, ha⟩), ih hb⟩

/-- Whatever a record is read from, every field can have its value. -/
theorem gives_of_decode {v : Json} (h : fields.record.decode v = some g) : fields.Gives g := by
  cases v with
  | object members => exact gives_of_ofMembers? h
  | array items => exact gives_of_ofItems? h
  | _ => cases h

end Fields

end GatewayClient
