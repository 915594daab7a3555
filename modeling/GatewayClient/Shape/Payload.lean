/-
The types of payloads, named, so that members of modules and listeners can say what they carry.
`Carrier` is the Lean type of a payload's values and `codec` how they are written and read.
-/
import GatewayClient.Shape.Accessibility
import GatewayClient.Shape.Advertising
import GatewayClient.Shape.Capability
import GatewayClient.Shape.Device
import GatewayClient.Shape.Localization
import GatewayClient.Shape.Metrics
import GatewayClient.Shape.UserGrants

namespace GatewayClient

/-- What a member of a module carries. -/
inductive Payload where
  | anything
  | unit
  | flag
  | text
  | texts
  | optionalText
  | word32
  | signed8
  | number
  | members
  | grants
  | latLon
  | resolution
  | skipRestriction
  | lifespan
  | additionalInfoEntry
  | additionalInfoKey
  | closedCaptionsSettings
  | closedCaptionsStyles
  | voiceGuidanceSettings
  | audioDescriptionSettings
  | semanticVersion
  | deviceVersion
  | hdcpVersionMap
  | hdrFormatMap
  | audioProfiles
  | networkInfo
  | provisionRequest
  | adPolicy
  | adConfigurationOptions
  | advertisingIdOptions
  | advertisingIdResult
  | contentParams
  | pageParams
  | actionParams
  | errorParams
  | mediaParams
  | mediaProgressParams
  | mediaSeekingParams
  | mediaSeekedParams
  | mediaRateChangeParams
  | mediaRenditionChangeParams
  | appParams
  | capabilityParams
  | grantInfo
  | grantModification
  | grantRequest
  | keyboardRequest
  | pinChallenge
  | pinChallengeResult
  | challenge
  | grantResult
  | additionalInfo
deriving DecidableEq, Repr

namespace Payload

/-- The type of a payload's values. -/
abbrev Carrier : Payload → Type
  | anything => Json
  | unit => Unit
  | flag => Bool
  | text => String
  | texts => List String
  | optionalText => Option String
  | word32 => UInt32
  | signed8 => Int8
  | number => Binary64
  | members => List (String × Json)
  | grants => List GrantInfo
  | latLon => LatLon
  | resolution => Resolution
  | skipRestriction => SkipRestriction
  | lifespan => Lifespan
  | additionalInfoEntry => AdditionalInfoEntry
  | additionalInfoKey => AdditionalInfoKey
  | closedCaptionsSettings => ClosedCaptionsSettings
  | closedCaptionsStyles => ClosedCaptionsStyles
  | voiceGuidanceSettings => VoiceGuidanceSettings
  | audioDescriptionSettings => AudioDescriptionSettings
  | semanticVersion => SemanticVersion
  | deviceVersion => DeviceVersion
  | hdcpVersionMap => HdcpVersionMap
  | hdrFormatMap => HdrFormatMap
  | audioProfiles => AudioProfiles
  | networkInfo => NetworkInfo
  | provisionRequest => ProvisionRequest
  | adPolicy => AdPolicy
  | adConfigurationOptions => AdConfigurationOptions
  | advertisingIdOptions => AdvertisingIdOptions
  | advertisingIdResult => AdvertisingIdResult
  | contentParams => ContentParams
  | pageParams => PageParams
  | actionParams => ActionParams
  | errorParams => ErrorParams
  | mediaParams => MediaParams
  | mediaProgressParams => MediaProgressParams
  | mediaSeekingParams => MediaSeekingParams
  | mediaSeekedParams => MediaSeekedParams
  | mediaRateChangeParams => MediaRateChangeParams
  | mediaRenditionChangeParams => MediaRenditionChangeParams
  | appParams => AppParams
  | capabilityParams => CapabilityParams
  | grantInfo => GrantInfo
  | grantModification => GrantModification
  | grantRequest => GrantRequest
  | keyboardRequest => KeyboardRequest
  | pinChallenge => PinChallenge
  | pinChallengeResult => PinChallengeResult
  | challenge => Challenge
  | grantResult => GrantResult
  | additionalInfo => AdditionalInfo

/-- How a payload's values are written and read. -/
def codec : (p : Payload) → Codec p.Carrier
  | anything => .value
  | unit => .unit
  | flag => .bool
  | text => .string
  | texts => .list .string
  | optionalText => .optional .string
  | word32 => .uint32
  | signed8 => .int8
  | number => .double
  | members => .members
  | grants => .list GrantInfo.codec
  | latLon => LatLon.codec
  | resolution => Resolution.codec
  | skipRestriction => SkipRestriction.codec
  | lifespan => Lifespan.codec
  | additionalInfoEntry => AdditionalInfoEntry.codec
  | additionalInfoKey => AdditionalInfoKey.codec
  | closedCaptionsSettings => ClosedCaptionsSettings.codec
  | closedCaptionsStyles => ClosedCaptionsStyles.codec
  | voiceGuidanceSettings => VoiceGuidanceSettings.codec
  | audioDescriptionSettings => AudioDescriptionSettings.codec
  | semanticVersion => SemanticVersion.codec
  | deviceVersion => DeviceVersion.codec
  | hdcpVersionMap => HdcpVersionMap.codec
  | hdrFormatMap => HdrFormatMap.codec
  | audioProfiles => AudioProfiles.codec
  | networkInfo => NetworkInfo.codec
  | provisionRequest => ProvisionRequest.codec
  | adPolicy => AdPolicy.codec
  | adConfigurationOptions => AdConfigurationOptions.codec
  | advertisingIdOptions => AdvertisingIdOptions.codec
  | advertisingIdResult => AdvertisingIdResult.codec
  | contentParams => ContentParams.codec
  | pageParams => PageParams.codec
  | actionParams => ActionParams.codec
  | errorParams => ErrorParams.codec
  | mediaParams => MediaParams.codec
  | mediaProgressParams => MediaProgressParams.codec
  | mediaSeekingParams => MediaSeekingParams.codec
  | mediaSeekedParams => MediaSeekedParams.codec
  | mediaRateChangeParams => MediaRateChangeParams.codec
  | mediaRenditionChangeParams => MediaRenditionChangeParams.codec
  | appParams => AppParams.codec
  | capabilityParams => CapabilityParams.codec
  | grantInfo => GrantInfo.codec
  | grantModification => GrantModification.codec
  | grantRequest => GrantRequest.codec
  | keyboardRequest => KeyboardRequest.codec
  | pinChallenge => PinChallenge.codec
  | pinChallengeResult => PinChallengeResult.codec
  | challenge => Challenge.codec
  | grantResult => GrantResult.codec
  | additionalInfo => AdditionalInfo.codec

/-- A value read as a payload and written again, if it can be read so. -/
def normalize (p : Payload) (value : Json) : Option Json :=
  p.codec.normalize value

/-- The payloads that have a name of their own, by that name. -/
def named : List (String × Payload) :=
  [("Unit", .unit), ("Map", .members), ("AdFrameworkConfig", .members), ("LatLon", .latLon),
   ("Resolution", .resolution), ("SkipRestriction", .skipRestriction), ("Lifespan", .lifespan),
   ("AdditionalInfoEntry", .additionalInfoEntry), ("AdditionalInfoKey", .additionalInfoKey),
   ("ClosedCaptionsSettings", .closedCaptionsSettings),
   ("ClosedCaptionsStyles", .closedCaptionsStyles),
   ("VoiceGuidanceSettings", .voiceGuidanceSettings),
   ("AudioDescriptionSettings", .audioDescriptionSettings), ("SemanticVersion", .semanticVersion),
   ("DeviceVersion", .deviceVersion), ("HdcpVersionMap", .hdcpVersionMap),
   ("HdrFormatMap", .hdrFormatMap), ("AudioProfiles", .audioProfiles),
   ("NetworkInfo", .networkInfo), ("ProvisionRequest", .provisionRequest), ("AdPolicy", .adPolicy),
   ("AdConfigurationOptions", .adConfigurationOptions),
   ("AdvertisingIdOptions", .advertisingIdOptions), ("AdvertisingIdResult", .advertisingIdResult),
   ("ContentParams", .contentParams), ("PageParams", .pageParams), ("ActionParams", .actionParams),
   ("ErrorParams", .errorParams), ("MediaParams", .mediaParams),
   ("MediaProgressParams", .mediaProgressParams), ("MediaSeekingParams", .mediaSeekingParams),
   ("MediaSeekedParams", .mediaSeekedParams), ("MediaRateChangeParams", .mediaRateChangeParams),
   ("MediaRenditionChangeParams", .mediaRenditionChangeParams), ("GrantInfo", .grantInfo),
   ("GrantModification", .grantModification), ("GrantRequest", .grantRequest),
   ("KeyboardRequest", .keyboardRequest), ("PinChallenge", .pinChallenge),
   ("PinChallengeResult", .pinChallengeResult), ("Challenge", .challenge),
   ("GrantResult", .grantResult), ("AdditionalInfo", .additionalInfo)]

/-- The payload of a name. -/
def ofName? (name : String) : Option Payload :=
  (named.find? fun n => n.1 == name).map Prod.snd

end Payload

end GatewayClient
