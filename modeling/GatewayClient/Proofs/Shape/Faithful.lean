/-
Faithful codecs: which values of its type a codec reads back, and that it reads no others.  Every
combinator makes a faithful codec of faithful ones, so a record is faithful if its keys differ and
its fields are faithful.  Only binary64 numbers set a condition: they have to be finite.
-/
import GatewayClient.Proofs.Json.Finite
import GatewayClient.Proofs.Shape.Codec
import Mathlib.Data.List.Nodup

namespace GatewayClient

variable {α β γ : Type}

namespace Codec

/-- The codec reads back every value for which `ok` holds, and from values with finite numbers it
reads no others. -/
class Faithful (c : Codec α) (ok : outParam (α → Prop)) : Prop where
  reads : ∀ a, ok a → c.Reads a
  gives : ∀ v a, v.Finite → c.decode v = some a → ok a

/-- No value for which `ok` holds is written null. -/
class NeverNull (c : Codec α) (ok : α → Prop) : Prop where
  ne_null : ∀ a, ok a → c.encode a ≠ .null

theorem Faithful.of_reads {c : Codec α} (h : ∀ a, c.Reads a) : c.Faithful fun _ => True where
  reads := fun a _ => h a
  gives := fun _ _ _ _ => trivial

variable {c : Codec α} {d : Codec β} {okc : α → Prop} {okd : β → Prop}

theorem Faithful.congr [c.Faithful okc] {ok : α → Prop} (h : ∀ a, okc a ↔ ok a) :
    c.Faithful ok where
  reads := fun a ha => Faithful.reads a ((h a).mpr ha)
  gives := fun v a hv ha => (h a).mp (Faithful.gives v a hv ha)

instance : value.Faithful fun _ => True :=
  .of_reads value_reads

instance : unit.Faithful fun _ => True :=
  .of_reads fun _ => rfl

instance : bool.Faithful fun _ => True :=
  .of_reads fun _ => rfl

instance : string.Faithful fun _ => True :=
  .of_reads string_reads

instance : members.Faithful fun _ => True :=
  .of_reads fun _ => rfl

theorem integerIn?_integer {low high i : Int} (hlow : low ≤ i) (hhigh : i ≤ high) :
    integerIn? low high (.integer i) = some i :=
  if_pos ⟨hlow, hhigh⟩

instance : uint8.Faithful fun _ => True := by
  refine .of_reads fun n => ?_
  have hhigh := n.toNat_lt
  rw [Reads, uint8]
  dsimp only
  rw [integerIn?_integer (by omega) (by omega), Option.map_some, Int.toNat_natCast,
    UInt8.ofNat_toNat]

instance : uint32.Faithful fun _ => True := by
  refine .of_reads fun n => ?_
  have hhigh := n.toNat_lt
  rw [Reads, uint32]
  dsimp only
  rw [integerIn?_integer (by omega) (by omega), Option.map_some, Int.toNat_natCast,
    UInt32.ofNat_toNat]

instance : uint64.Faithful fun _ => True :=
  .of_reads Json.toWord?_ofWord

instance : int8.Faithful fun _ => True := by
  refine .of_reads fun n => ?_
  have hlow := n.le_toInt
  have hhigh := n.toInt_lt
  rw [Reads, int8]
  dsimp only
  rw [integerIn?_integer (by omega) (by omega), Option.map_some, Int8.ofInt_toInt]

/-- A finite number is written as it is; an integer is read as a finite number. -/
instance : double.Faithful fun x => x.isFinite = true where
  reads := by
    intro x hx
    rw [Reads, double]
    dsimp only
    rw [if_pos hx]
  gives := by
    intro v x hv hx
    cases hv with
    | double value hvalue =>
        cases hx
        exact hvalue
    | integer value =>
        cases hx
        exact Binary64.isFinite_ofInt value
    | null | bool | string | array | object => cases hx

theorem choice_reads {cases : List α} {name : α → String} (hnames : (cases.map name).Nodup)
    (hall : ∀ a, a ∈ cases) (a : α) : (choice cases name).Reads a := by
  change (cases.find? fun b => name b == name a) = some a
  cases h : cases.find? fun b => name b == name a with
  | none => exact absurd (List.find?_eq_none.mp h a (hall a)) (by simp)
  | some b =>
      have hname : name b = name a := by simpa using List.find?_some h
      rw [List.inj_on_of_nodup_map hnames (hall b) (hall a) hname]

instance [c.Faithful okc] [c.NeverNull okc] : c.optional.Faithful fun a => ∀ b, a = some b → okc b
    where
  reads := by
    intro a ha
    exact optional_reads fun b hb =>
      ⟨Faithful.reads b (ha b hb), NeverNull.ne_null b (ha b hb)⟩
  gives := by
    rintro v a hv ha b rfl
    rw [optional] at ha
    dsimp only at ha
    split at ha
    · cases ha
    · obtain ⟨b', hdecode, hsome⟩ := Option.map_eq_some_iff.mp ha
      cases hsome
      exact Faithful.gives v b hv hdecode

theorem gives_decodeItems [c.Faithful okc] {items : List Json} {as : List α}
    (hitems : ∀ v ∈ items, v.Finite) (h : decodeItems c items = some as) : ∀ a ∈ as, okc a := by
  induction items generalizing as with
  | nil =>
      cases h
      exact List.forall_mem_nil _
  | cons v items ih =>
      obtain ⟨hv, hitems⟩ := List.forall_mem_cons.mp hitems
      obtain ⟨a, ha, hrest⟩ := Option.bind_eq_some_iff.mp h
      obtain ⟨rest, hread, hcons⟩ := Option.bind_eq_some_iff.mp hrest
      cases hcons
      exact List.forall_mem_cons.mpr ⟨Faithful.gives v a hv ha, ih hitems hread⟩

instance [c.Faithful okc] : c.list.Faithful fun as => ∀ a ∈ as, okc a where
  reads := by
    intro as has
    change decodeItems c (as.map c.encode) = some as
    induction as with
    | nil => rfl
    | cons a rest ih =>
        obtain ⟨ha, hrest⟩ := List.forall_mem_cons.mp has
        have hread : c.decode (c.encode a) = some a := Faithful.reads a ha
        rw [List.map_cons, decodeItems, hread, ih hrest]
        rfl
  gives := by
    intro v as hv has
    cases hv with
    | array items hitems =>
        exact gives_decodeItems hitems has
    | null | bool | integer | double | string | object => cases has

instance [c.Faithful okc] [d.Faithful okd] : (c.pair d).Faithful fun p => okc p.1 ∧ okd p.2 where
  reads := by
    rintro ⟨a, b⟩ ⟨ha, hb⟩
    have hfirst : c.decode (c.encode a) = some a := Faithful.reads a ha
    have hsecond : d.decode (d.encode b) = some b := Faithful.reads b hb
    rw [Reads, pair]
    dsimp only
    rw [hfirst, hsecond]
    rfl
  gives := by
    intro v p hv hp
    rw [pair] at hp
    dsimp only at hp
    split at hp
    · next first second =>
        cases hv with
        | array items hitems =>
            obtain ⟨a, ha, hrest⟩ := Option.bind_eq_some_iff.mp hp
            obtain ⟨b, hb, hpair⟩ := Option.bind_eq_some_iff.mp hrest
            cases hpair
            exact ⟨Faithful.gives first a (hitems first (by simp)) ha,
              Faithful.gives second b (hitems second (by simp)) hb⟩
    · cases hp

theorem dictionary_reads (h : ∀ a, c.Reads a) (as : List (String × α)) :
    c.dictionary.Reads as := by
  rw [Reads, dictionary]
  dsimp only
  induction as with
  | nil => rfl
  | cons head rest ih =>
      obtain ⟨k, a⟩ := head
      have hread : c.decode (c.encode a) = some a := h a
      rw [List.map_cons, decodeMembers, hread, ih]
      rfl

instance {ok : Bool → Prop} : bool.NeverNull ok := ⟨fun _ _ => nofun⟩

instance {ok : String → Prop} : string.NeverNull ok := ⟨fun _ _ => nofun⟩

instance {ok : UInt8 → Prop} : uint8.NeverNull ok := ⟨fun _ _ => nofun⟩

instance {ok : List (String × Json) → Prop} : members.NeverNull ok := ⟨fun _ _ => nofun⟩

instance {ok : List α → Prop} : c.list.NeverNull ok := ⟨fun _ _ => nofun⟩

instance : double.NeverNull fun x => x.isFinite = true where
  ne_null := by
    intro x hx
    rw [double]
    dsimp only
    rw [if_pos hx]
    exact Json.noConfusion

theorem choice_neverNull {cases : List α} {name : α → String} {ok : α → Prop} :
    (choice cases name).NeverNull ok :=
  ⟨fun _ _ => nofun⟩

end Codec

namespace Field

/-- The field reads back every value for which `ok` holds, and has no others. -/
class Faithful (f : Field α) (ok : outParam (α → Prop)) : Prop where
  reads : ∀ a, ok a → f.Reads a
  gives : ∀ v a, v.Finite → f.codec.decode v = some a → ok a
  missing : ∀ a, f.missing = some a → ok a
  absent : ∀ a, f.absent = some a → ok a

variable {c : Codec α} {okc : α → Prop} {key : String}

instance [c.Faithful okc] : (required key c).Faithful okc where
  reads := fun a ha => required_reads key (Codec.Faithful.reads a ha)
  gives := Codec.Faithful.gives (c := c)
  missing := nofun
  absent := nofun

instance {value : α} [c.Faithful okc] [hvalue : Fact (okc value)] :
    (defaulted key c value).Faithful okc where
  reads := fun a ha => defaulted_reads key value (Codec.Faithful.reads a ha)
  gives := Codec.Faithful.gives (c := c)
  missing := by
    rintro _ ⟨⟩
    exact hvalue.out
  absent := by
    rintro _ ⟨⟩
    exact hvalue.out

instance [c.Faithful okc] [c.NeverNull okc] :
    (optional key c).Faithful fun a => ∀ b, a = some b → okc b where
  reads := by
    intro a ha
    exact optional_reads key fun b hb =>
      ⟨Codec.Faithful.reads b (ha b hb), Codec.NeverNull.ne_null b (ha b hb)⟩
  gives := Codec.Faithful.gives (c := c.optional)
  missing := by
    rintro _ ⟨⟩
    exact nofun
  absent := by
    rintro _ ⟨⟩
    exact nofun

instance [c.Faithful okc] [c.NeverNull okc] :
    (nullable key c).Faithful fun a => ∀ b, a = some b → okc b where
  reads := Codec.Faithful.reads (c := c.optional)
  gives := Codec.Faithful.gives (c := c.optional)
  missing := by
    rintro _ ⟨⟩
    exact nofun
  absent := nofun

end Field

namespace Fields

/-- Every field is faithful, to what `ok` asks of its value. -/
class Faithful (fields : Fields γ) (ok : outParam (γ → Prop)) : Prop where
  reads : ∀ g, ok g → fields.Reads g
  gives_members : ∀ members g, (∀ m ∈ members, m.2.Finite) → fields.ofMembers? members = some g →
    ok g
  gives_items : ∀ items g, (∀ v ∈ items, v.Finite) → fields.ofItems? items = some g → ok g

instance : nil.Faithful fun _ => True where
  reads := fun _ _ => trivial
  gives_members := fun _ _ _ _ => trivial
  gives_items := fun _ _ _ _ => trivial

instance {first : Field α} {rest : Fields β} {okFirst : α → Prop} {okRest : β → Prop}
    [first.Faithful okFirst] [rest.Faithful okRest] :
    (cons first rest).Faithful fun g => okFirst g.1 ∧ okRest g.2 where
  reads := fun g hg => ⟨Field.Faithful.reads g.1 hg.1, Faithful.reads g.2 hg.2⟩
  gives_members := by
    intro members g hmembers h
    obtain ⟨a, ha, hrest⟩ := Option.bind_eq_some_iff.mp h
    obtain ⟨b, hb, hpair⟩ := Option.bind_eq_some_iff.mp hrest
    cases hpair
    refine ⟨?_, Faithful.gives_members members b hmembers hb⟩
    cases hmember : Json.member? first.key members with
    | none =>
        rw [hmember] at ha
        exact Field.Faithful.missing (f := first) a ha
    | some v =>
        rw [hmember] at ha
        exact Field.Faithful.gives (f := first) v a (.member? hmembers hmember) ha
  gives_items := by
    intro items g hitems h
    cases items with
    | nil =>
        obtain ⟨a, ha, hrest⟩ := Option.bind_eq_some_iff.mp h
        obtain ⟨b, hb, hpair⟩ := Option.bind_eq_some_iff.mp hrest
        cases hpair
        exact ⟨Field.Faithful.absent (f := first) a ha, Faithful.gives_items [] b hitems hb⟩
    | cons v items =>
        obtain ⟨hv, hitems⟩ := List.forall_mem_cons.mp hitems
        obtain ⟨a, ha, hrest⟩ := Option.bind_eq_some_iff.mp h
        obtain ⟨b, hb, hpair⟩ := Option.bind_eq_some_iff.mp hrest
        cases hpair
        exact ⟨Field.Faithful.gives (f := first) v a hv ha, Faithful.gives_items items b hitems hb⟩

variable {fields : Fields γ} {okFields : γ → Prop} {make : γ → α} {parts : α → γ} {ok : α → Prop}

/-- A record is faithful to the values whose fields are as the fields ask. -/
theorem faithful_record [fields.Faithful okFields] (hkeys : fields.keys.Nodup)
    (hmake : ∀ a, make (parts a) = a) (hok : ∀ g, okFields g ↔ ok (make g)) :
    (fields.record.convert make parts).Faithful ok where
  reads := by
    intro a ha
    have hparts : okFields (parts a) := by
      rw [hok, hmake]
      exact ha
    exact Codec.convert_reads (hmake a) (record_reads hkeys (Faithful.reads _ hparts))
  gives := by
    intro v a hv ha
    obtain ⟨g, hg, rfl⟩ := Option.map_eq_some_iff.mp ha
    rw [← hok]
    cases hv with
    | array items hitems => exact Faithful.gives_items items g hitems hg
    | object members hmembers => exact Faithful.gives_members members g hmembers hg
    | null | bool | integer | double | string => cases hg

theorem record_neverNull : (fields.record.convert make parts).NeverNull ok :=
  ⟨fun _ _ => nofun⟩

end Fields

end GatewayClient
