/-
Frames that are written and classified.  A value is told apart by its members, whatever order they
stand in.  A frame in normal form, which has the version of this protocol and no error with null
data, is classified as itself once it is written; and whatever a value is classified as is in normal
form.  So two clients understand each other: a request arrives as a call, and a reply as the outcome
that it was made of.
-/
import GatewayClient.Frame.Inbound
import GatewayClient.Proofs.Shape.Codec

namespace GatewayClient

namespace ErrorObject

theorem codec_reads {e : ErrorObject} (hdata : e.data ≠ some .null) : codec.Reads e := by
  apply Codec.convert_reads rfl
  apply Fields.record_reads (by decide)
  refine ⟨Field.required_reads _ (Codec.int32_reads e.code),
    Field.defaulted_reads _ _ (Codec.string_reads e.message), ?_, trivial⟩
  apply Field.optional_reads
  intro v hv
  refine ⟨Codec.value_reads v, ?_⟩
  rintro rfl
  exact hdata hv

/-- An error object that has been written is taken as it is. -/
theorem ofWire_encode {e : ErrorObject} (hdata : e.data ≠ some .null) :
    ofWire (codec.encode e) = e := by
  rw [ofWire, codec_reads hdata]

/-- No error object that is made of a value has null data. -/
theorem data_ofWire (value : Json) : (ofWire value).data ≠ some .null := by
  rw [ofWire]
  split
  · next e hdecode =>
      obtain ⟨⟨code, message, data, ⟨⟩⟩, hrecord, rfl⟩ := Option.map_eq_some_iff.mp hdecode
      obtain ⟨-, -, hdata, -⟩ := Fields.gives_of_decode hrecord
      exact Field.ne_null_of_gives hdata
  · exact (Option.some_ne_none _).symm

end ErrorObject

namespace Inbound

/-- The form of the frames that values are classified as. -/
def Normal : Inbound → Prop
  | .response r => r.version = protocolVersion ∧ ∀ e, r.error = some e → e.data ≠ some .null
  | .event _ | .providerCall _ => True

variable {f : Inbound} {r : Response} {value : Json}

/-- It does not matter in which order the members of a value stand. -/
theorem classify_ofMembers {members : List (String × Json)}
    (hkeys : (members.map Prod.fst).Nodup) :
    classify (Json.ofMembers members) = classify (.object members) := by
  simp only [Json.ofMembers, classify, responseOf, Json.member?_sortMembers hkeys]

theorem classify_record {γ : Type} {fields : Fields γ} (hkeys : fields.keys.Nodup) (g : γ) :
    classify (fields.record.encode g) = classify (.object (fields.toMembers g)) :=
  classify_ofMembers (hkeys.sublist (fields.keys_toMembers g))

/-- A request is a call to whoever receives it. -/
theorem classify_toJson_request (r : Request) :
    classify r.toJson = .ok (.providerCall ⟨Json.ofWord r.id, r.method, r.params⟩) :=
  (classify_record (by decide) (r.version, r.id, r.method, r.params, ())).trans rfl

theorem classify_toJson_event (n : EventNotice) : classify (toJson (.event n)) = .ok (.event n) :=
  (classify_record (by decide) (n.event, n.value, ())).trans rfl

theorem classify_toJson_providerCall (c : ProviderCall) :
    classify (toJson (.providerCall c)) = .ok (.providerCall c) :=
  (classify_record (by decide) (c.id, c.method, c.params, ())).trans rfl

theorem classify_toJson_response (h : (response r).Normal) :
    classify r.toJson = .ok (.response r) := by
  obtain ⟨version, id, result, error⟩ := r
  obtain ⟨rfl, hdata⟩ : version = protocolVersion ∧ _ := h
  refine (classify_record (by decide) (protocolVersion, id, result, error, ())).trans ?_
  cases error with
  | none => cases result <;> rfl
  | some e =>
      -- What has been written for the error is no null, so it is read as an error object again.
      have hread := congrArg
        (fun e' => (.ok (.response ⟨protocolVersion, id, result, some e'⟩) :
          Except FrameFault Inbound))
        (ErrorObject.ofWire_encode (hdata e rfl))
      cases result <;> exact hread

/-- A value that is classified as a reply has members, one of them an id. -/
theorem eq_responseOf_of_classify (h : classify value = .ok (.response r)) :
    ∃ id members, value = .object members ∧ r = responseOf id members := by
  cases value with
  | object members =>
      refine ⟨r.id, members, rfl, ?_⟩
      simp only [classify] at h
      split at h
      · cases h
      · cases h
      · split at h
        · split at h <;> cases h
        · cases h
        · cases h
          rfl
        · cases h
  | _ => cases h

/-- The reply that is made of some members is in normal form: a null error is none. -/
theorem normal_responseOf (id : Json) (members : List (String × Json)) :
    (response (responseOf id members)).Normal := by
  refine ⟨rfl, fun e he => ?_⟩
  simp only [responseOf] at he
  split at he
  · cases he
  · cases he
  · cases he
    exact ErrorObject.data_ofWire _

theorem normal_of_classify (h : classify value = .ok f) : f.Normal := by
  cases f with
  | event | providerCall => trivial
  | response r =>
      obtain ⟨id, members, -, rfl⟩ := eq_responseOf_of_classify h
      exact normal_responseOf id members

theorem classify_toJson (h : f.Normal) : classify f.toJson = .ok f := by
  cases f with
  | response r => exact classify_toJson_response h
  | event n => exact classify_toJson_event n
  | providerCall c => exact classify_toJson_providerCall c

/-- Classifying undoes writing for the frames in normal form, and for these only; and it brings
every value that it accepts to the value of such a frame, which it accepts as the same again. -/
theorem classify_normalizes :
    (∀ f : Inbound, f.Normal → classify f.toJson = .ok f) ∧
      ∀ value f, classify value = .ok f → f.Normal ∧ classify f.toJson = .ok f := by
  refine ⟨fun f hnormal => classify_toJson hnormal, fun value f haccepted => ?_⟩
  have hnormal := normal_of_classify haccepted
  exact ⟨hnormal, classify_toJson hnormal⟩

/-- An error that is an array, a member that no frame has and a null result come to a reply whose
value has none of the first two. -/
example :
    (classify (.object [("error", .array [.integer 2, .string "late", .null]), ("id", .integer 7),
      ("result", .null), ("trace", .bool true)])).map toJson =
      .ok (.object [("error", .object [("code", .integer 2), ("message", .string "late")]),
        ("id", .integer 7), ("jsonrpc", .string "2.0"), ("result", .null)]) := by
  decide

end Inbound

namespace Response

theorem normal_ofOutcome (id : Json) (outcome : Outcome) :
    (Inbound.response (ofOutcome id outcome)).Normal := by
  cases outcome with
  | ok value =>
      refine ⟨rfl, fun e he => ?_⟩
      cases he
  | error f =>
      refine ⟨rfl, fun e he => ?_⟩
      cases he
      exact (Option.some_ne_none _).symm

/-- A reply carries the outcome that it was made of. -/
theorem outcome_ofOutcome (id : Json) (outcome : Outcome) :
    (ofOutcome id outcome).outcome = outcome := by
  cases outcome with
  | ok value => rfl
  | error f => exact congrArg Except.error (ErrorObject.toFailure_ofFailure f)

theorem id_ofOutcome (id : Json) (outcome : Outcome) : (ofOutcome id outcome).id = id := by
  cases outcome <;> rfl

end Response

/-- A value is the id of a call exactly if it is the whole number that the id is. -/
theorem Json.toWord?_eq_some_iff {json : Json} {n : UInt64} :
    json.toWord? = some n ↔ json = ofWord n := by
  constructor
  · intro h
    cases json with
    | integer i =>
        simp only [toWord?, Option.ite_none_right_eq_some, Option.some.injEq] at h
        obtain ⟨⟨hlow, hhigh⟩, rfl⟩ := h
        rw [ofWord, UInt64.toNat_ofNat_of_lt' hhigh, Int.toNat_of_nonneg hlow]
    | _ => cases h
  · rintro rfl
    exact toWord?_ofWord n

/-- Two clients understand each other.  The request of the one is a call to the other, with the
params that were given or an empty object for none; and the reply that the other makes of an outcome
is a reply to the one, with the id that was given and that outcome. -/
theorem peers_understand :
    (∀ (id : UInt64) (method : String) (params : Json),
      Inbound.classify (Request.make id method params).toJson =
        .ok (.providerCall
          ⟨Json.ofWord id, method, if params = .null then .object [] else params⟩)) ∧
      ∀ (id : Json) (outcome : Outcome), ∃ r,
        Inbound.classify (Response.ofOutcome id outcome).toJson = .ok (.response r) ∧
          r.id = id ∧ r.outcome = outcome ∧ ∀ n, r.callId? = some n ↔ id = Json.ofWord n := by
  constructor
  · intro id method params
    have hparams : Request.paramsOf params = if params = .null then .object [] else params := by
      cases params <;> simp [Request.paramsOf]
    rw [Inbound.classify_toJson_request, Request.make, hparams]
  · intro id outcome
    have hid := Response.id_ofOutcome id outcome
    refine ⟨Response.ofOutcome id outcome,
      Inbound.classify_toJson_response (Response.normal_ofOutcome id outcome), hid,
      Response.outcome_ofOutcome id outcome, fun n => ?_⟩
    rw [Response.callId?, hid, Json.toWord?_eq_some_iff]

end GatewayClient
