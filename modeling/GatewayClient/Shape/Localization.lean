/-
Payload shapes of the localization module: a place on earth, and additional information by key.
-/
import GatewayClient.Shape.Codec

namespace GatewayClient

/-- Latitude and longitude in degrees. -/
abbrev LatLon := Binary64 × Binary64

def LatLon.codec : Codec LatLon :=
  .pair .double .double

/-- Additional information, by key. -/
abbrev AdditionalInfo := List (String × String)

def AdditionalInfo.codec : Codec AdditionalInfo :=
  .dictionary .string

structure AdditionalInfoEntry where
  key : String
  value : String
deriving DecidableEq

def AdditionalInfoEntry.codec : Codec AdditionalInfoEntry :=
  (Fields.cons (.required "key" .string) <|
    .cons (.required "value" .string) .nil).record.convert
    (fun (key, value, ()) => ⟨key, value⟩)
    (fun e => (e.key, e.value, ()))

structure AdditionalInfoKey where
  key : String
deriving DecidableEq

def AdditionalInfoKey.codec : Codec AdditionalInfoKey :=
  (Fields.cons (.required "key" .string) .nil).record.convert
    (fun (key, ()) => ⟨key⟩)
    (fun k => (k.key, ()))

end GatewayClient
