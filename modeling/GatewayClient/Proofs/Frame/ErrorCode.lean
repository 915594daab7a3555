/-
Which failure a reply's error reports.  Of an object only the code counts, whatever else it has and
whether or not that fits an error object.  An array is read as an error object too, by the order of
its items, and only as a whole.  Every other value reports a general failure, and no reply that
carries an error is a success.
-/
import GatewayClient.Proofs.Frame.RoundTrip

namespace GatewayClient

namespace ErrorObject

variable {v : Json}

/-- The code that a value is, if it is a whole number that fits one. -/
def code? : Json → Option Int :=
  Codec.integerIn? (-2147483648) 2147483647

/-- The failure that a code stands for.  It is a general one where there is none, where it is no
code, and where it is the code for no failure. -/
def failureOfCode (code : Option Json) : Failure :=
  ((code.bind code?).bind Failure.ofCode?).getD .general

/-- The code of an error object that is written as an array: it comes first, and after it at most a
text and then at most one value more. -/
def firstOf? : List Json → Option Json
  | [code] | [code, .string _] | [code, .string _, _] => some code
  | _ => none

/-- Where in a value its code is looked for. -/
def codeIn? : Json → Option Json
  | .object members => Json.member? "code" members
  | .array items => firstOf? items
  | _ => none

theorem toInt_of_code? {c : Int} (h : code? v = some c) : (Int32.ofInt c).toInt = c := by
  cases v with
  | integer i =>
      simp only [code?, Codec.integerIn?, Option.ite_none_right_eq_some, Option.some.injEq] at h
      obtain ⟨⟨hlow, hhigh⟩, rfl⟩ := h
      exact Int32.toInt_ofInt_of_le hlow (Int.lt_add_one_of_le hhigh)
  | _ => cases h

/-- Only the code of an error object says what it reports, and 1 says the same as none. -/
theorem toFailure_of_code {e : ErrorObject} {code : Option Json}
    (h : e.code = ((code.bind code?).map Int32.ofInt).getD 1) :
    e.toFailure = failureOfCode code := by
  rw [toFailure, h, failureOfCode]
  cases hcode : code.bind code? with
  | none => rfl
  | some c =>
      obtain ⟨v, -, hv⟩ := Option.bind_eq_some_iff.mp hcode
      rw [Option.map_some, Option.getD_some, toInt_of_code? hv]
      rfl

theorem bind_decode (code : Option Json) :
    code.bind Codec.int32.decode = (code.bind code?).map Int32.ofInt :=
  Option.map_bind.symm

/-- An object keeps its code even where something else in it fits no error object. -/
theorem code_ofWire_object (members : List (String × Json)) :
    (ofWire (.object members)).code =
      (((Json.member? "code" members).bind code?).map Int32.ofInt).getD 1 := by
  rw [← bind_decode, ofWire]
  split
  · next e hdecode =>
      obtain ⟨⟨code, message, data, ⟨⟩⟩, hrecord, rfl⟩ := Option.map_eq_some_iff.mp hdecode
      obtain ⟨_, hcode, hrest⟩ := Option.bind_eq_some_iff.mp hrecord
      obtain ⟨_, -, hpair⟩ := Option.bind_eq_some_iff.mp hrest
      cases hpair
      have hcode : (Json.member? "code" members).bind Codec.int32.decode = some code :=
        (Field.ofMember?_required "code" Codec.int32 _).symm.trans hcode
      rw [hcode]
      rfl
  · rfl

/-- An array is read as an error object where its items fit one, and only there. -/
theorem code_of_decode_array (items : List Json) :
    (codec.decode (.array items)).map code = (firstOf? items).bind Codec.int32.decode := by
  have hdata : ∀ v : Json, ∃ data, Codec.value.optional.decode v = some data := by
    intro v
    cases v <;> exact ⟨_, rfl⟩
  match items with
  | [] => rfl
  | [first] =>
      cases hcode : Codec.int32.decode first <;>
        simp [codec, Codec.convert, Fields.record, Fields.ofItems?, Field.required,
          Field.defaulted, Field.optional, firstOf?, hcode]
  | [first, text] =>
      cases text <;> cases hcode : Codec.int32.decode first <;>
        simp [codec, Codec.convert, Codec.string, Fields.record, Fields.ofItems?, Field.required,
          Field.defaulted, Field.optional, firstOf?, hcode]
  | [first, text, data] =>
      obtain ⟨data', hdata'⟩ := hdata data
      cases text <;> cases hcode : Codec.int32.decode first <;>
        simp [codec, Codec.convert, Codec.string, Fields.record, Fields.ofItems?, Field.required,
          Field.defaulted, Field.optional, firstOf?, hcode, hdata']
  | first :: text :: data :: extra :: rest =>
      simp [codec, Codec.convert, Fields.record, Fields.ofItems?, firstOf?]

theorem code_ofWire_array (items : List Json) :
    (ofWire (.array items)).code = (((firstOf? items).bind code?).map Int32.ofInt).getD 1 := by
  rw [← bind_decode, ← code_of_decode_array, ofWire]
  cases codec.decode (.array items) <;> rfl

/-- What a value reports is told by its code alone. -/
theorem toFailure_ofWire (v : Json) : (ofWire v).toFailure = failureOfCode (codeIn? v) := by
  cases v with
  | object members => exact toFailure_of_code (code_ofWire_object members)
  | array items => exact toFailure_of_code (code_ofWire_array items)
  | _ => rfl

theorem codeIn?_eq_get? (h : ∀ items, v ≠ .array items) : codeIn? v = v.get? "code" := by
  cases v with
  | array items => exact absurd rfl (h items)
  | _ => rfl

end ErrorObject

namespace Response

variable {r : Response} {members : List (String × Json)} {v : Json}

/-- A reply with an error fails: with what the error reports, or where it has a result as well with
a general failure. -/
theorem outcome_of_error (h : Inbound.classify (.object members) = .ok (.response r))
    (herror : Json.member? "error" members = some v) (hnull : v ≠ .null) :
    r.outcome =
      .error (if (Json.member? "result" members).isSome then .general
        else (ErrorObject.ofWire v).toFailure) := by
  obtain ⟨id, _, heq, rfl⟩ := Inbound.eq_responseOf_of_classify h
  cases heq
  have hwire : (Inbound.responseOf id members).error = some (ErrorObject.ofWire v) := by
    rw [Inbound.responseOf, herror]
    dsimp only
    split
    · next hnone => cases hnone
    · next hsame => exact absurd (Option.some.inj hsame) hnull
    · next hsame => rw [Option.some.inj hsame]
  have hresult : (Inbound.responseOf id members).result = Json.member? "result" members := rfl
  rw [outcome, hwire, hresult]
  cases Json.member? "result" members <;> rfl

/-- What an error reports is what its code stands for, and a general failure where it has none that
stands for a failure.  The code of an object is its member `code`, whatever its other members are;
an array has one as well where it can be read as an error object, and no other value has.  A reply
with an error is never a success. -/
theorem error_reports_code (v : Json) :
    (ErrorObject.ofWire v).toFailure = ErrorObject.failureOfCode (ErrorObject.codeIn? v) ∧
    ((∀ items, v ≠ .array items) →
      (ErrorObject.ofWire v).toFailure = ErrorObject.failureOfCode (v.get? "code")) ∧
    ∀ members r, Inbound.classify (.object members) = .ok (.response r) →
      Json.member? "error" members = some v → v ≠ .null →
      r.outcome =
        .error (if (Json.member? "result" members).isSome then .general
          else (ErrorObject.ofWire v).toFailure) := by
  refine ⟨ErrorObject.toFailure_ofWire v, fun hitems => ?_, fun members r => outcome_of_error⟩
  rw [ErrorObject.toFailure_ofWire, ErrorObject.codeIn?_eq_get? hitems]

/-- The error of this reply is an array, which has no member `code`, and yet a failure of its own is
reported. -/
theorem error_array_reports_code :
    let error : Json := .array [.integer (-32601)]
    let reply : Json := .object [("error", error), ("id", .integer 1)]
    error.get? "code" = none ∧ ErrorObject.failureOfCode (error.get? "code") = .general ∧
      (ErrorObject.ofWire error).toFailure = .methodNotFound ∧
      ∃ r, Inbound.classify reply = .ok (.response r) ∧ r.outcome = .error .methodNotFound := by
  refine ⟨by decide, by decide, by decide, _, rfl, by decide⟩

end Response

end GatewayClient
