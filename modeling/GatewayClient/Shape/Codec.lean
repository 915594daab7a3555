/-
Codecs between Lean types and JSON values, and the combinators that payload shapes are built from.
A record is read from an object by its keys or from an array by the order of its fields; what a
field's absence means is part of the field.
-/
import GatewayClient.Json.Value

namespace GatewayClient

/-- A way to write the values of a type and to read them back. -/
structure Codec (α : Type) where
  encode : α → Json
  decode : Json → Option α

namespace Codec

variable {α β : Type}

/-- A value read as `α` and written again, if it can be read so. -/
def normalize (c : Codec α) (value : Json) : Option Json :=
  (c.decode value).map c.encode

/-- The same codec for a type that is `α` under another name. -/
def convert (c : Codec α) (make : α → β) (parts : β → α) : Codec β :=
  ⟨fun b => c.encode (parts b), fun v => (c.decode v).map make⟩

/-- Any value as it is. -/
def value : Codec Json :=
  ⟨id, some⟩

/-- Nothing to say: null. -/
def unit : Codec Unit :=
  ⟨fun _ => .null, fun v => if v = .null then some () else none⟩

def bool : Codec Bool where
  encode := .bool
  decode
    | .bool b => some b
    | _ => none

def string : Codec String where
  encode := .string
  decode
    | .string text => some text
    | _ => none

/-- The integer that a value is, if it lies in `[low, high]`. -/
def integerIn? (low high : Int) : Json → Option Int
  | .integer i => if low ≤ i ∧ i ≤ high then some i else none
  | _ => none

def uint8 : Codec UInt8 :=
  ⟨fun n => .integer n.toNat, fun v => (integerIn? 0 255 v).map fun i => UInt8.ofNat i.toNat⟩

def uint32 : Codec UInt32 :=
  ⟨fun n => .integer n.toNat,
    fun v => (integerIn? 0 4294967295 v).map fun i => UInt32.ofNat i.toNat⟩

def uint64 : Codec UInt64 :=
  ⟨Json.ofWord, Json.toWord?⟩

def int8 : Codec Int8 :=
  ⟨fun n => .integer n.toInt, fun v => (integerIn? (-128) 127 v).map Int8.ofInt⟩

def int32 : Codec Int32 :=
  ⟨fun n => .integer n.toInt, fun v => (integerIn? (-2147483648) 2147483647 v).map Int32.ofInt⟩

/-- A binary64 number.  Integers are read too; what is not finite has no numeral and is written
null. -/
def double : Codec Binary64 where
  encode x := if x.isFinite then .double x else .null
  decode
    | .double x => some x
    | .integer i => some (Binary64.ofInt i)
    | _ => none

/-- A value or null. -/
def optional (c : Codec α) : Codec (Option α) where
  encode
    | some a => c.encode a
    | none => .null
  decode
    | .null => some none
    | v => (c.decode v).map some

/-- Reads every item, or nothing if one cannot be read. -/
def decodeItems (c : Codec α) : List Json → Option (List α)
  | [] => some []
  | v :: rest => do
    let a ← c.decode v
    let as ← decodeItems c rest
    return a :: as

def list (c : Codec α) : Codec (List α) where
  encode as := .array (as.map c.encode)
  decode
    | .array items => decodeItems c items
    | _ => none

/-- An array of exactly two items. -/
def pair (first : Codec α) (second : Codec β) : Codec (α × β) where
  encode p := .array [first.encode p.1, second.encode p.2]
  decode
    | .array [a, b] => do
      let a ← first.decode a
      let b ← second.decode b
      return (a, b)
    | _ => none

/-- Any object, as its members. -/
def members : Codec (List (String × Json)) where
  encode := .object
  decode
    | .object ms => some ms
    | _ => none

/-- Reads the value of every member, or nothing if one cannot be read. -/
def decodeMembers (c : Codec α) : List (String × Json) → Option (List (String × α))
  | [] => some []
  | (k, v) :: rest => do
    let a ← c.decode v
    let as ← decodeMembers c rest
    return (k, a) :: as

/-- An object whose members are all of one type. -/
def dictionary (c : Codec α) : Codec (List (String × α)) where
  encode as := .object (as.map fun (k, a) => (k, c.encode a))
  decode
    | .object ms => decodeMembers c ms
    | _ => none

/-- One of some named cases: its name, or an object whose only member is that name with null. -/
def choice (cases : List α) (name : α → String) : Codec α where
  encode a := .string (name a)
  decode
    | .string text => cases.find? fun a => name a == text
    | .object [(key, .null)] => cases.find? fun a => name a == key
    | _ => none

end Codec

/-- One field of a record: its key, the codec of its value, the value it has where an object lacks
the key and where an array is too short for it, and which values are left out when an object is
written. -/
structure Field (α : Type) where
  key : String
  codec : Codec α
  missing : Option α
  absent : Option α
  omits : α → Bool

namespace Field

variable {α : Type}

/-- A field that has to be there. -/
def required (key : String) (codec : Codec α) : Field α :=
  ⟨key, codec, none, none, fun _ => false⟩

/-- A field with a value of its own where it is not given. -/
def defaulted (key : String) (codec : Codec α) (value : α) : Field α :=
  ⟨key, codec, some value, some value, fun _ => false⟩

/-- A field that may be left out, and is when it has no value. -/
def optional (key : String) (codec : Codec α) : Field (Option α) :=
  ⟨key, codec.optional, some none, some none, Option.isNone⟩

/-- A field that an object may leave out and an array may not; without value it is written null. -/
def nullable (key : String) (codec : Codec α) : Field (Option α) :=
  ⟨key, codec.optional, some none, none, fun _ => false⟩

/-- Reads the field from what an object has under its key. -/
def ofMember? (f : Field α) : Option Json → Option α
  | none => f.missing
  | some v => f.codec.decode v

end Field

/-- The fields of a record in order, with the product of their types. -/
inductive Fields : Type → Type 1 where
  | nil : Fields Unit
  | cons {α β : Type} (first : Field α) (rest : Fields β) : Fields (α × β)

namespace Fields

/-- Reads every field from the members of an object; other members are ignored. -/
def ofMembers? : {γ : Type} → Fields γ → List (String × Json) → Option γ
  | _, nil, _ => some ()
  | _, cons first rest, members => do
    let a ← first.ofMember? (Json.member? first.key members)
    let b ← rest.ofMembers? members
    return (a, b)

/-- Reads the fields from the items of an array, in order; no item may be left over. -/
def ofItems? : {γ : Type} → Fields γ → List Json → Option γ
  | _, nil, [] => some ()
  | _, nil, _ :: _ => none
  | _, cons first rest, [] => do
    let a ← first.absent
    let b ← rest.ofItems? []
    return (a, b)
  | _, cons first rest, v :: items => do
    let a ← first.codec.decode v
    let b ← rest.ofItems? items
    return (a, b)

/-- The members that are written for the fields' values. -/
def toMembers : {γ : Type} → Fields γ → γ → List (String × Json)
  | _, nil, () => []
  | _, cons first rest, (a, b) =>
    if first.omits a then rest.toMembers b
    else (first.key, first.codec.encode a) :: rest.toMembers b

/-- The keys of the fields. -/
def keys : {γ : Type} → Fields γ → List String
  | _, nil => []
  | _, cons first rest => first.key :: rest.keys

/-- The codec of a record with these fields. -/
def record {γ : Type} (fields : Fields γ) : Codec γ where
  encode g := Json.ofMembers (fields.toMembers g)
  decode
    | .object members => fields.ofMembers? members
    | .array items => fields.ofItems? items
    | _ => none

end Fields

end GatewayClient
