/-
Payload shapes of the device module: versions, protection and picture formats, audio profiles, the
network and provisioning.
-/
import GatewayClient.Shape.Codec

namespace GatewayClient

/-- Width and height in pixels. -/
abbrev Resolution := UInt32 × UInt32

def Resolution.codec : Codec Resolution :=
  .pair .uint32 .uint32

structure SemanticVersion where
  major : UInt32
  minor : UInt32
  patch : UInt32
  readable : String
deriving DecidableEq

def SemanticVersion.codec : Codec SemanticVersion :=
  (Fields.cons (.required "major" .uint32) <|
    .cons (.required "minor" .uint32) <|
    .cons (.required "patch" .uint32) <|
    .cons (.defaulted "readable" .string "") .nil).record.convert
    (fun (major, minor, patch, readable, ()) => ⟨major, minor, patch, readable⟩)
    (fun v => (v.major, v.minor, v.patch, v.readable, ()))

structure DeviceVersion where
  sdk : SemanticVersion
  api : SemanticVersion
  firmware : SemanticVersion
  os : SemanticVersion
  debug : Option String
deriving DecidableEq

def DeviceVersion.codec : Codec DeviceVersion :=
  (Fields.cons (.required "sdk" SemanticVersion.codec) <|
    .cons (.required "api" SemanticVersion.codec) <|
    .cons (.required "firmware" SemanticVersion.codec) <|
    .cons (.required "os" SemanticVersion.codec) <|
    .cons (.optional "debug" .string) .nil).record.convert
    (fun (sdk, api, firmware, os, debug, ()) => ⟨sdk, api, firmware, os, debug⟩)
    (fun v => (v.sdk, v.api, v.firmware, v.os, v.debug, ()))

/-- Which versions of content protection a device has. -/
structure HdcpVersionMap where
  hdcp14 : Bool
  hdcp22 : Bool
deriving DecidableEq

def HdcpVersionMap.codec : Codec HdcpVersionMap :=
  (Fields.cons (.required "hdcp1.4" .bool) <|
    .cons (.required "hdcp2.2" .bool) .nil).record.convert
    (fun (hdcp14, hdcp22, ()) => ⟨hdcp14, hdcp22⟩)
    (fun m => (m.hdcp14, m.hdcp22, ()))

/-- Which high dynamic range formats a device has. -/
structure HdrFormatMap where
  hdr10 : Bool
  hdr10Plus : Bool
  dolbyVision : Bool
  hlg : Bool
deriving DecidableEq

def HdrFormatMap.codec : Codec HdrFormatMap :=
  (Fields.cons (.required "hdr10" .bool) <|
    .cons (.required "hdr10Plus" .bool) <|
    .cons (.required "dolbyVision" .bool) <|
    .cons (.required "hlg" .bool) .nil).record.convert
    (fun (hdr10, hdr10Plus, dolbyVision, hlg, ()) => ⟨hdr10, hdr10Plus, dolbyVision, hlg⟩)
    (fun m => (m.hdr10, m.hdr10Plus, m.dolbyVision, m.hlg, ()))

/-- Which kinds of audio a device plays. -/
structure AudioProfiles where
  stereo : Bool
  dolbyDigital51 : Bool
  dolbyDigital51Plus : Bool
  dolbyAtmos : Bool
deriving DecidableEq

def AudioProfiles.codec : Codec AudioProfiles :=
  (Fields.cons (.required "stereo" .bool) <|
    .cons (.required "dolbyDigital5.1" .bool) <|
    .cons (.required "dolbyDigital5.1+" .bool) <|
    .cons (.required "dolbyAtmos" .bool) .nil).record.convert
    (fun (stereo, digital, digitalPlus, atmos, ()) => ⟨stereo, digital, digitalPlus, atmos⟩)
    (fun a => (a.stereo, a.dolbyDigital51, a.dolbyDigital51Plus, a.dolbyAtmos, ()))

inductive NetworkState where
  | connected
  | disconnected
deriving DecidableEq

def NetworkState.name : NetworkState → String
  | connected => "connected"
  | disconnected => "disconnected"

def NetworkState.codec : Codec NetworkState :=
  .choice [.connected, .disconnected] name

inductive NetworkType where
  | wifi
  | ethernet
  | hybrid
deriving DecidableEq

def NetworkType.name : NetworkType → String
  | wifi => "wifi"
  | ethernet => "ethernet"
  | hybrid => "hybrid"

def NetworkType.codec : Codec NetworkType :=
  .choice [.wifi, .ethernet, .hybrid] name

structure NetworkInfo where
  state : NetworkState
  type : NetworkType
deriving DecidableEq

def NetworkInfo.codec : Codec NetworkInfo :=
  (Fields.cons (.required "state" NetworkState.codec) <|
    .cons (.required "type" NetworkType.codec) .nil).record.convert
    (fun (state, type, ()) => ⟨state, type⟩)
    (fun n => (n.state, n.type, ()))

structure ProvisionRequest where
  accountId : String
  deviceId : String
  distributorId : Option String
deriving DecidableEq

def ProvisionRequest.codec : Codec ProvisionRequest :=
  (Fields.cons (.required "accountId" .string) <|
    .cons (.required "deviceId" .string) <|
    .cons (.optional "distributorId" .string) .nil).record.convert
    (fun (accountId, deviceId, distributorId, ()) => ⟨accountId, deviceId, distributorId⟩)
    (fun r => (r.accountId, r.deviceId, r.distributorId, ()))

end GatewayClient
