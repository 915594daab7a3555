/-
Payload shapes of the advertising module: the policy of a device, the options of an ad framework,
and advertising identifiers.
-/
import GatewayClient.Shape.Codec

namespace GatewayClient

/-- Which advertisements may be skipped. -/
inductive SkipRestriction where
  | none
  | adsUnwatched
  | adsAll
  | all
deriving DecidableEq

def SkipRestriction.name : SkipRestriction → String
  | none => "none"
  | adsUnwatched => "adsUnwatched"
  | adsAll => "adsAll"
  | all => "all"

def SkipRestriction.codec : Codec SkipRestriction :=
  .choice [.none, .adsUnwatched, .adsAll, .all] name

structure AdPolicy where
  skipRestriction : SkipRestriction
  limitAdTracking : Bool
deriving DecidableEq

def AdPolicy.codec : Codec AdPolicy :=
  (Fields.cons (.required "skipRestriction" SkipRestriction.codec) <|
    .cons (.required "limitAdTracking" .bool) .nil).record.convert
    (fun (skipRestriction, limitAdTracking, ()) => ⟨skipRestriction, limitAdTracking⟩)
    (fun p => (p.skipRestriction, p.limitAdTracking, ()))

structure AdConfigurationOptions where
  coppa : Option Bool
  environment : Option String
  authenticationEntity : Option String
deriving DecidableEq

def AdConfigurationOptions.codec : Codec AdConfigurationOptions :=
  (Fields.cons (.optional "coppa" .bool) <|
    .cons (.optional "environment" .string) <|
    .cons (.optional "authenticationEntity" .string) .nil).record.convert
    (fun (coppa, environment, authenticationEntity, ()) =>
      ⟨coppa, environment, authenticationEntity⟩)
    (fun o => (o.coppa, o.environment, o.authenticationEntity, ()))

structure AdvertisingIdScope where
  type : String
  id : String
deriving DecidableEq

def AdvertisingIdScope.codec : Codec AdvertisingIdScope :=
  (Fields.cons (.required "type" .string) <|
    .cons (.required "id" .string) .nil).record.convert
    (fun (type, id, ()) => ⟨type, id⟩)
    (fun s => (s.type, s.id, ()))

structure AdvertisingIdOptions where
  scope : Option AdvertisingIdScope
deriving DecidableEq

def AdvertisingIdOptions.codec : Codec AdvertisingIdOptions :=
  (Fields.cons (.optional "scope" AdvertisingIdScope.codec) .nil).record.convert
    (fun (scope, ()) => ⟨scope⟩)
    (fun o => (o.scope, ()))

structure AdvertisingIdResult where
  ifa : String
  ifaType : String
  lmt : String
deriving DecidableEq

def AdvertisingIdResult.codec : Codec AdvertisingIdResult :=
  (Fields.cons (.required "ifa" .string) <|
    .cons (.required "ifaType" .string) <|
    .cons (.required "lmt" .string) .nil).record.convert
    (fun (ifa, ifaType, lmt, ()) => ⟨ifa, ifaType, lmt⟩)
    (fun r => (r.ifa, r.ifaType, r.lmt, ()))

end GatewayClient
