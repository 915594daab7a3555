/-
The catalog: every member of every module that a platform offers, and the look-ups by wire name.
-/
import GatewayClient.Catalog.Member

namespace GatewayClient.Catalog

/-- A property that is only read. -/
def readOnly (module name : String) (payload : Payload) : Member :=
  .property ⟨module, name, payload, false⟩

/-- A property that is read and written. -/
def readWrite (module name : String) (payload : Payload) : Member :=
  .property ⟨module, name, payload, true⟩

/-- A method with the client's deadline. -/
def method (module name : String) (params result : Payload) : Member :=
  .method ⟨module, name, params, result, none⟩

/-- Where a device is and which languages its user prefers. -/
def localization : List Member :=
  [readWrite "localization" "locality" .text,
   readWrite "localization" "postalCode" .text,
   readWrite "localization" "countryCode" .text,
   readWrite "localization" "language" .text,
   readWrite "localization" "locale" .text,
   readWrite "localization" "timeZone" .text,
   readWrite "localization" "preferredAudioLanguages" .texts,
   readOnly "localization" "latlon" .latLon,
   method "localization" "additionalInfo" .unit .additionalInfo,
   method "localization" "addAdditionalInfo" .additionalInfoEntry .unit,
   method "localization" "removeAdditionalInfo" .additionalInfoKey .unit]

/-- How content is made accessible. -/
def accessibility : List Member :=
  [readOnly "accessibility" "closedCaptionsSettings" .closedCaptionsSettings,
   readOnly "accessibility" "voiceGuidanceSettings" .voiceGuidanceSettings,
   readOnly "accessibility" "audioDescriptionSettings" .audioDescriptionSettings]

/-- What a device is and can do. -/
def device : List Member :=
  [readOnly "device" "id" .text,
   readOnly "device" "distributor" .text,
   readOnly "device" "platform" .text,
   readOnly "device" "uid" .text,
   readOnly "device" "type" .text,
   readOnly "device" "model" .text,
   readOnly "device" "sku" .text,
   readOnly "device" "make" .text,
   readOnly "device" "version" .deviceVersion,
   readOnly "device" "hdcp" .hdcpVersionMap,
   readOnly "device" "hdr" .hdrFormatMap,
   readOnly "device" "audio" .audioProfiles,
   readOnly "device" "screenResolution" .resolution,
   readOnly "device" "videoResolution" .resolution,
   readOnly "device" "network" .networkInfo,
   readWrite "device" "name" .text,
   method "device" "provision" .provisionRequest .unit,
   .event ⟨"device", "onDeviceNameChanged", .text⟩]

/-- What advertisements may be shown and how they are told apart. -/
def advertising : List Member :=
  [method "advertising" "config" .adConfigurationOptions .members,
   method "advertising" "advertisingId" .advertisingIdOptions .advertisingIdResult,
   method "advertising" "deviceAttributes" .unit .members,
   method "advertising" "appBundleId" .unit .text,
   method "advertising" "resetIdentifier" .unit .unit,
   readOnly "advertising" "policy" .adPolicy,
   readWrite "advertising" "skipRestriction" .skipRestriction]

/-- What an application reports; every report is acknowledged by a flag. -/
def metrics : List Member :=
  [method "metrics" "ready" .unit .flag,
   method "metrics" "signIn" .unit .flag,
   method "metrics" "signOut" .unit .flag,
   method "metrics" "startContent" .contentParams .flag,
   method "metrics" "stopContent" .contentParams .flag,
   method "metrics" "page" .pageParams .flag,
   method "metrics" "action" .actionParams .flag,
   method "metrics" "error" .errorParams .flag,
   method "metrics" "mediaLoadStart" .mediaParams .flag,
   method "metrics" "mediaPlay" .mediaParams .flag,
   method "metrics" "mediaPlaying" .mediaParams .flag,
   method "metrics" "mediaPause" .mediaParams .flag,
   method "metrics" "mediaWaiting" .mediaParams .flag,
   method "metrics" "mediaProgress" .mediaProgressParams .flag,
   method "metrics" "mediaSeeking" .mediaSeekingParams .flag,
   method "metrics" "mediaSeeked" .mediaSeekedParams .flag,
   method "metrics" "mediaRateChange" .mediaRateChangeParams .flag,
   method "metrics" "mediaRenditionChange" .mediaRenditionChangeParams .flag,
   method "metrics" "mediaEnded" .mediaParams .flag]

/-- What the user allows; a request waits for the user, so it has long to wait. -/
def userGrants : List Member :=
  [method "usergrants" "app" .appParams .grants,
   method "usergrants" "device" .unit .grants,
   method "usergrants" "capability" .capabilityParams .grants,
   method "usergrants" "grant" .grantModification .unit,
   method "usergrants" "deny" .grantModification .unit,
   method "usergrants" "clear" .grantModification .unit,
   .method ⟨"usergrants", "request", .grantRequest, .grants, some 120000⟩]

/-- The three ways in which a keyboard collects text. -/
def keyboardStandard : Capability :=
  ⟨"keyboard", "onRequestStandard", .keyboardRequest, .text⟩

def keyboardPassword : Capability :=
  ⟨"keyboard", "onRequestPassword", .keyboardRequest, .text⟩

def keyboardEmail : Capability :=
  ⟨"keyboard", "onRequestEmail", .keyboardRequest, .text⟩

/-- A challenge that the user passes by a PIN. -/
def pinChallenge : Capability :=
  ⟨"pinchallenge", "onRequestChallenge", .pinChallenge, .pinChallengeResult⟩

/-- A challenge that the user passes by an acknowledgement. -/
def acknowledgeChallenge : Capability :=
  ⟨"acknowledgechallenge", "onRequestChallenge", .challenge, .grantResult⟩

/-- What applications provide. -/
def capabilities : List Member :=
  [.capability keyboardStandard,
   .capability keyboardPassword,
   .capability keyboardEmail,
   .capability pinChallenge,
   .capability acknowledgeChallenge]

/-- Every member of every module. -/
def members : List Member :=
  localization ++ accessibility ++ device ++ advertising ++ metrics ++ userGrants ++ capabilities

/-- Every wire name with what it is used for. -/
def entries : List Entry :=
  members.flatMap Member.entries

/-- The entry of a wire name. -/
def lookup? (name : String) : Option Entry :=
  entries.find? fun e => e.name == name

def isSupported (name : String) : Bool :=
  (lookup? name).isSome

/-- Wire names in ascending order. -/
def sortNames (names : List String) : List String :=
  names.mergeSort fun a b => decide (a ≤ b)

/-- The wire names of a module. -/
def namesOfModule (module : String) : List String :=
  sortNames ((entries.filter fun e => e.module == module).map Entry.name)

/-- The wire names with a use. -/
def namesOfKind (kind : EntryKind) : List String :=
  sortNames ((entries.filter fun e => e.kind == kind).map Entry.name)

/-- The property that is read by a wire name. -/
def property? (getter : String) : Option Property :=
  members.findSome? fun
    | .property p => if p.getter = getter then some p else none
    | _ => none

/-- The method that is called by a wire name. -/
def method? (name : String) : Option Method :=
  members.findSome? fun
    | .method m => if m.wireName = name then some m else none
    | _ => none

/-- The event, other than a property's changes, of a wire name. -/
def event? (name : String) : Option Event :=
  members.findSome? fun
    | .event e => if e.wireName = name then some e else none
    | _ => none

end GatewayClient.Catalog
