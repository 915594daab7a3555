/-
Payloads survive the wire.  Every shape's codec is faithful: it reads back whatever value it writes
whose binary64 numbers are finite, however its optional fields are filled.  What is read from a
value settles after one round: written and read again it stays what it is.
-/
import GatewayClient.Proofs.Shape.Faithful
import GatewayClient.Shape.Payload

namespace GatewayClient

open Codec (choice_reads choice_neverNull)
open Fields (faithful_record record_neverNull)

/-- A field whose value may be anything can have its default. -/
instance factTrue : Fact True := ⟨trivial⟩

instance : Resolution.codec.Faithful fun _ => True :=
  .congr (c := .pair .uint32 .uint32) (by simp)

instance : SemanticVersion.codec.Faithful fun _ => True :=
  faithful_record (by decide) (fun _ => rfl) (by simp)

instance : DeviceVersion.codec.Faithful fun _ => True :=
  faithful_record (by decide) (fun _ => rfl) (by simp)

instance : HdcpVersionMap.codec.Faithful fun _ => True :=
  faithful_record (by decide) (fun _ => rfl) (by simp)

instance : HdrFormatMap.codec.Faithful fun _ => True :=
  faithful_record (by decide) (fun _ => rfl) (by simp)

instance : AudioProfiles.codec.Faithful fun _ => True :=
  faithful_record (by decide) (fun _ => rfl) (by simp)

instance : NetworkState.codec.Faithful fun _ => True :=
  .of_reads (choice_reads (by decide) (by rintro ⟨⟩ <;> decide))

instance : NetworkType.codec.Faithful fun _ => True :=
  .of_reads (choice_reads (by decide) (by rintro ⟨⟩ <;> decide))

instance : NetworkInfo.codec.Faithful fun _ => True :=
  faithful_record (by decide) (fun _ => rfl) (by simp)

instance : ProvisionRequest.codec.Faithful fun _ => True :=
  faithful_record (by decide) (fun _ => rfl) (by simp)

instance : LatLon.codec.Faithful fun place =>
    place.1.isFinite = true ∧ place.2.isFinite = true :=
  inferInstanceAs ((Codec.pair .double .double).Faithful _)

instance : AdditionalInfo.codec.Faithful fun _ => True :=
  .of_reads (Codec.dictionary_reads Codec.string_reads)

instance : AdditionalInfoEntry.codec.Faithful fun _ => True :=
  faithful_record (by decide) (fun _ => rfl) (by simp)

instance : AdditionalInfoKey.codec.Faithful fun _ => True :=
  faithful_record (by decide) (fun _ => rfl) (by simp)

/-- The size that is said of the letters, if one is, is finite. -/
def ClosedCaptionsStyles.Finite (styles : ClosedCaptionsStyles) : Prop :=
  ∀ size, styles.fontSize = some size → size.isFinite = true

instance : ClosedCaptionsStyles.codec.Faithful ClosedCaptionsStyles.Finite :=
  faithful_record (by decide) (fun _ => rfl) (by simp [ClosedCaptionsStyles.Finite])

/-- Styles of which nothing is said have no number. -/
instance : Fact (ClosedCaptionsStyles.Finite {}) := ⟨nofun⟩

instance : ClosedCaptionsSettings.codec.Faithful fun settings => settings.styles.Finite :=
  faithful_record (by decide) (fun _ => rfl) (by simp)

instance : VoiceGuidanceSettings.codec.Faithful fun settings => settings.speed.isFinite = true :=
  faithful_record (by decide) (fun _ => rfl) (by simp)

instance : AudioDescriptionSettings.codec.Faithful fun _ => True :=
  faithful_record (by decide) (fun _ => rfl) (by simp)

instance : SkipRestriction.codec.Faithful fun _ => True :=
  .of_reads (choice_reads (by decide) (by rintro ⟨⟩ <;> decide))

instance : AdPolicy.codec.Faithful fun _ => True :=
  faithful_record (by decide) (fun _ => rfl) (by simp)

instance : AdConfigurationOptions.codec.Faithful fun _ => True :=
  faithful_record (by decide) (fun _ => rfl) (by simp)

instance : AdvertisingIdScope.codec.Faithful fun _ => True :=
  faithful_record (by decide) (fun _ => rfl) (by simp)

instance : AdvertisingIdScope.codec.NeverNull fun _ => True :=
  record_neverNull

instance : AdvertisingIdOptions.codec.Faithful fun _ => True :=
  faithful_record (by decide) (fun _ => rfl) (by simp)

instance : AdvertisingIdResult.codec.Faithful fun _ => True :=
  faithful_record (by decide) (fun _ => rfl) (by simp)

instance : ContentParams.codec.Faithful fun _ => True :=
  faithful_record (by decide) (fun _ => rfl) (by simp)

instance : PageParams.codec.Faithful fun _ => True :=
  faithful_record (by decide) (fun _ => rfl) (by simp)

instance : ActionCategory.codec.Faithful fun _ => True :=
  .of_reads (choice_reads (by decide) (by rintro ⟨⟩ <;> decide))

instance : ActionParams.codec.Faithful fun _ => True :=
  faithful_record (by decide) (fun _ => rfl) (by simp)

instance : ErrorType.codec.Faithful fun _ => True :=
  .of_reads (choice_reads (by decide) (by rintro ⟨⟩ <;> decide))

instance : ErrorParams.codec.Faithful fun _ => True :=
  faithful_record (by decide) (fun _ => rfl) (by simp)

instance : MediaParams.codec.Faithful fun _ => True :=
  faithful_record (by decide) (fun _ => rfl) (by simp)

instance : MediaProgressParams.codec.Faithful fun params => params.progress.isFinite = true :=
  faithful_record (by decide) (fun _ => rfl) (by simp)

instance : MediaSeekingParams.codec.Faithful fun params => params.target.isFinite = true :=
  faithful_record (by decide) (fun _ => rfl) (by simp)

instance : MediaSeekedParams.codec.Faithful fun params => params.position.isFinite = true :=
  faithful_record (by decide) (fun _ => rfl) (by simp)

instance : MediaRateChangeParams.codec.Faithful fun params => params.rate.isFinite = true :=
  faithful_record (by decide) (fun _ => rfl) (by simp)

instance : MediaRenditionChangeParams.codec.Faithful fun _ => True :=
  faithful_record (by decide) (fun _ => rfl) (by simp)

instance : Role.codec.Faithful fun _ => True :=
  .of_reads (choice_reads (by decide) (by rintro ⟨⟩ <;> decide))

instance : Role.codec.NeverNull fun _ => True :=
  choice_neverNull

instance : GrantState.codec.Faithful fun _ => True :=
  .of_reads (choice_reads (by decide) (by rintro ⟨⟩ <;> decide))

instance : Lifespan.codec.Faithful fun _ => True :=
  .of_reads (choice_reads (by decide) (by rintro ⟨⟩ <;> decide))

instance : AppInfo.codec.Faithful fun _ => True :=
  faithful_record (by decide) (fun _ => rfl) (by simp)

instance : AppInfo.codec.NeverNull fun _ => True :=
  record_neverNull

instance : GrantInfo.codec.Faithful fun _ => True :=
  faithful_record (by decide) (fun _ => rfl) (by simp)

instance : AppParams.codec.Faithful fun _ => True :=
  faithful_record (by decide) (fun _ => rfl) (by simp)

instance : CapabilityParams.codec.Faithful fun _ => True :=
  faithful_record (by decide) (fun _ => rfl) (by simp)

instance : GrantModificationOptions.codec.Faithful fun _ => True :=
  faithful_record (by decide) (fun _ => rfl) (by simp)

instance : GrantModificationOptions.codec.NeverNull fun _ => True :=
  record_neverNull

instance : GrantModification.codec.Faithful fun _ => True :=
  faithful_record (by decide) (fun _ => rfl) (by simp)

instance : Permission.codec.Faithful fun _ => True :=
  faithful_record (by decide) (fun _ => rfl) (by simp)

instance : RequestOptions.codec.Faithful fun _ => True :=
  faithful_record (by decide) (fun _ => rfl) (by simp)

instance : RequestOptions.codec.NeverNull fun _ => True :=
  record_neverNull

instance : GrantRequest.codec.Faithful fun _ => True :=
  faithful_record (by decide) (fun _ => rfl) (by simp)

instance : KeyboardRequest.codec.Faithful fun _ => True :=
  faithful_record (by decide) (fun _ => rfl) (by simp)

instance : ChallengeRequestor.codec.Faithful fun _ => True :=
  faithful_record (by decide) (fun _ => rfl) (by simp)

instance : PinSpace.codec.Faithful fun _ => True :=
  .of_reads (choice_reads (by decide) (by rintro ⟨⟩ <;> decide))

instance : PinChallenge.codec.Faithful fun _ => True :=
  faithful_record (by decide) (fun _ => rfl) (by simp)

instance : ResultReason.codec.Faithful fun _ => True :=
  .of_reads (choice_reads (by decide) (by rintro ⟨⟩ <;> decide))

instance : PinChallengeResult.codec.Faithful fun _ => True :=
  faithful_record (by decide) (fun _ => rfl) (by simp)

instance : Challenge.codec.Faithful fun _ => True :=
  faithful_record (by decide) (fun _ => rfl) (by simp)

instance : GrantResult.codec.Faithful fun _ => True :=
  faithful_record (by decide) (fun _ => rfl) (by simp)

/-- The binary64 numbers among the fields of a payload, nested ones included, are finite. -/
def Payload.Finite : (p : Payload) → p.Carrier → Prop
  | .number, x => x.isFinite = true
  | .latLon, place => place.1.isFinite = true ∧ place.2.isFinite = true
  | .closedCaptionsStyles, styles => styles.Finite
  | .closedCaptionsSettings, settings => settings.styles.Finite
  | .voiceGuidanceSettings, settings => settings.speed.isFinite = true
  | .mediaProgressParams, params => params.progress.isFinite = true
  | .mediaSeekingParams, params => params.target.isFinite = true
  | .mediaSeekedParams, params => params.position.isFinite = true
  | .mediaRateChangeParams, params => params.rate.isFinite = true
  | _, _ => True

theorem Payload.faithful (p : Payload) : p.codec.Faithful p.Finite := by
  cases p with
  | texts => exact .congr (c := .list .string) (by simp [Finite])
  | optionalText => exact .congr (c := .optional .string) (by simp [Finite])
  | grants => exact .congr (c := .list GrantInfo.codec) (by simp [Finite])
  | _ =>
    rw [codec]
    infer_instance

/-- The shapes of values on the wire: payloads, and what occurs only inside of them. -/
inductive WireShape where
  | payload (p : Payload)
  | networkState
  | networkType
  | advertisingIdScope
  | actionCategory
  | errorType
  | role
  | grantState
  | appInfo
  | grantModificationOptions
  | permission
  | requestOptions
  | challengeRequestor
  | pinSpace
  | resultReason

namespace WireShape

/-- The type of a shape's values. -/
abbrev Carrier : WireShape → Type
  | payload p => p.Carrier
  | networkState => NetworkState
  | networkType => NetworkType
  | advertisingIdScope => AdvertisingIdScope
  | actionCategory => ActionCategory
  | errorType => ErrorType
  | role => Role
  | grantState => GrantState
  | appInfo => AppInfo
  | grantModificationOptions => GrantModificationOptions
  | permission => Permission
  | requestOptions => RequestOptions
  | challengeRequestor => ChallengeRequestor
  | pinSpace => PinSpace
  | resultReason => ResultReason

/-- How a shape's values are written and read. -/
def codec : (s : WireShape) → Codec s.Carrier
  | payload p => p.codec
  | networkState => NetworkState.codec
  | networkType => NetworkType.codec
  | advertisingIdScope => AdvertisingIdScope.codec
  | actionCategory => ActionCategory.codec
  | errorType => ErrorType.codec
  | role => Role.codec
  | grantState => GrantState.codec
  | appInfo => AppInfo.codec
  | grantModificationOptions => GrantModificationOptions.codec
  | permission => Permission.codec
  | requestOptions => RequestOptions.codec
  | challengeRequestor => ChallengeRequestor.codec
  | pinSpace => PinSpace.codec
  | resultReason => ResultReason.codec

/-- The binary64 numbers among the fields of a value are finite; only payloads have any. -/
def Finite : (s : WireShape) → s.Carrier → Prop
  | payload p, x => p.Finite x
  | _, _ => True

theorem faithful (s : WireShape) : s.codec.Faithful s.Finite := by
  cases s with
  | payload p => exact p.faithful
  | _ =>
    rw [codec]
    infer_instance

/-- What becomes of the values of a shape on the wire.  A value whose binary64 numbers are finite is
read back from what is written for it, and so is all that has been read, from a value or from a
text. -/
structure Survives (s : WireShape) : Prop where
  reads : ∀ x, s.Finite x → s.codec.decode (s.codec.encode x) = some x
  settles : ∀ (v : Json) (x : s.Carrier), v.Finite → s.codec.decode v = some x →
    s.codec.decode (s.codec.encode x) = some x ∧
      s.codec.normalize (s.codec.encode x) = some (s.codec.encode x)
  settles_text : ∀ (text : String) (v : Json) (x : s.Carrier), Json.parse? text = some v →
    s.codec.decode v = some x →
    s.codec.decode (s.codec.encode x) = some x ∧
      s.codec.normalize (s.codec.encode x) = some (s.codec.encode x)

/-- Typed payloads survive the wire. -/
theorem survives_wire (s : WireShape) : s.Survives := by
  have hfaithful := s.faithful
  have hsettles : ∀ (v : Json) (x : s.Carrier), v.Finite → s.codec.decode v = some x →
      s.codec.decode (s.codec.encode x) = some x ∧
        s.codec.normalize (s.codec.encode x) = some (s.codec.encode x) := by
    intro v x hv hx
    have hreads : s.codec.decode (s.codec.encode x) = some x :=
      hfaithful.reads x (hfaithful.gives v x hv hx)
    refine ⟨hreads, ?_⟩
    rw [Codec.normalize, hreads, Option.map_some]
  exact {
    reads := hfaithful.reads
    settles := hsettles
    settles_text := fun text v x hparse hx => hsettles v x (Json.finite_parse? hparse) hx
  }

end WireShape

end GatewayClient
