/-
The settings of a client: how long calls wait, how often expired calls are swept, where the gateway
is, and how many outbound frames may wait in a channel.
-/
import GatewayClient.Settings.Duration
import GatewayClient.Shape.Codec

namespace GatewayClient

/-- The settings of a client; durations are in milliseconds. -/
structure Settings where
  waitTime : Nat := 1000
  subscribeTimeout : Nat := 1000
  cleanupInterval : Nat := 5000
  gatewayUrl : String := "ws://127.0.0.1:9998"
  logLevel : String := "Info"
  outboundBuffer : UInt64 := 256
deriving DecidableEq, Repr

/-- Why settings are refused. -/
inductive SettingsFault where
  | unreadable
  | unreadableDuration (unit : DurationUnit)
  | zeroTimeout (name : String)
  | zeroLimit (name : String)
  | notWebsocket (url : String)
deriving DecidableEq, Repr

namespace SettingsFault

/-- The text of a fault.  Where a text cannot be read at all, no rule here fixes what is said. -/
def message? : SettingsFault → Option String
  | unreadable => none
  | unreadableDuration unit => some unit.fault
  | zeroTimeout name => some ("invalid timeout: " ++ name ++ " cannot be 0")
  | zeroLimit name => some ("invalid limit: " ++ name ++ " cannot be 0")
  | notWebsocket url => some ("invalid gateway url: " ++ url)

end SettingsFault

namespace Settings

/-- A duration as it is written: the milliseconds, reduced to a 64-bit word. -/
def encodeDuration (ms : Nat) : Json :=
  .integer (ms % UInt64.size : Nat)

/-- A duration as it is read: a word of milliseconds, or a text with a unit. -/
def readDuration : Json → Except SettingsFault Nat
  | .string text =>
    match Duration.parse text with
    | .ok ms => .ok ms
    | .error unit => .error (.unreadableDuration unit)
  | v =>
    match v.toWord? with
    | some n => .ok n.toNat
    | none => .error .unreadable

def duration : Codec Nat :=
  ⟨encodeDuration, fun v => (readDuration v).toOption⟩

/-- Every member may be left out; it then has its default. -/
def codec : Codec Settings :=
  let d : Settings := {}
  (Fields.cons (.defaulted "waitTime" duration d.waitTime) <|
    .cons (.defaulted "subscribeTimeout" duration d.subscribeTimeout) <|
    .cons (.defaulted "cleanupInterval" duration d.cleanupInterval) <|
    .cons (.defaulted "wsUrl" .string d.gatewayUrl) <|
    .cons (.defaulted "logLevel" .string d.logLevel) <|
    .cons (.defaulted "outboundBuffer" .uint64 d.outboundBuffer) .nil).record.convert
    (fun (waitTime, subscribeTimeout, cleanupInterval, gatewayUrl, logLevel, outboundBuffer, ()) =>
      ⟨waitTime, subscribeTimeout, cleanupInterval, gatewayUrl, logLevel, outboundBuffer⟩)
    (fun s => (s.waitTime, s.subscribeTimeout, s.cleanupInterval, s.gatewayUrl, s.logLevel,
      s.outboundBuffer, ()))

def toJson (s : Settings) : Json :=
  codec.encode s

/-- Whether a url is one of a websocket. -/
def isWebsocketUrl (url : String) : Bool :=
  "ws://".toList.isPrefixOf url.toList || "wss://".toList.isPrefixOf url.toList

/-- Refuses settings that no client can work with; the first fault in this order counts. -/
def validate (s : Settings) : Except SettingsFault Unit :=
  if s.waitTime = 0 then .error (.zeroTimeout "waitTime")
  else if s.subscribeTimeout = 0 then .error (.zeroTimeout "subscribeTimeout")
  else if s.cleanupInterval = 0 then .error (.zeroTimeout "cleanupInterval")
  else if s.outboundBuffer = 0 then .error (.zeroLimit "outboundBuffer")
  else if !isWebsocketUrl s.gatewayUrl then .error (.notWebsocket s.gatewayUrl)
  else .ok ()

end Settings

end GatewayClient
