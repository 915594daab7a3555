/-
Payload shapes of the user grants module: what an application or the device has been granted, and
the requests that ask for grants or change them.
-/
import GatewayClient.Shape.Codec

namespace GatewayClient

inductive Role where
  | use
  | manage
  | provide
deriving DecidableEq

def Role.name : Role → String
  | use => "use"
  | manage => "manage"
  | provide => "provide"

def Role.codec : Codec Role :=
  .choice [.use, .manage, .provide] name

inductive GrantState where
  | granted
  | denied
deriving DecidableEq

def GrantState.name : GrantState → String
  | granted => "granted"
  | denied => "denied"

def GrantState.codec : Codec GrantState :=
  .choice [.granted, .denied] name

/-- How long a grant lasts. -/
inductive Lifespan where
  | once
  | forever
  | appActive
  | powerActive
  | seconds
deriving DecidableEq

def Lifespan.name : Lifespan → String
  | once => "once"
  | forever => "forever"
  | appActive => "appActive"
  | powerActive => "powerActive"
  | seconds => "seconds"

def Lifespan.codec : Codec Lifespan :=
  .choice [.once, .forever, .appActive, .powerActive, .seconds] name

structure AppInfo where
  id : String
  title : Option String
deriving DecidableEq

def AppInfo.codec : Codec AppInfo :=
  (Fields.cons (.required "id" .string) <|
    .cons (.optional "title" .string) .nil).record.convert
    (fun (id, title, ()) => ⟨id, title⟩)
    (fun a => (a.id, a.title, ()))

structure GrantInfo where
  app : Option AppInfo
  state : GrantState
  capability : String
  role : Role
  lifespan : Lifespan
  expires : Option String
deriving DecidableEq

def GrantInfo.codec : Codec GrantInfo :=
  (Fields.cons (.optional "app" AppInfo.codec) <|
    .cons (.required "state" GrantState.codec) <|
    .cons (.required "capability" .string) <|
    .cons (.required "role" Role.codec) <|
    .cons (.required "lifespan" Lifespan.codec) <|
    .cons (.optional "expires" .string) .nil).record.convert
    (fun (app, state, capability, role, lifespan, expires, ()) =>
      ⟨app, state, capability, role, lifespan, expires⟩)
    (fun g => (g.app, g.state, g.capability, g.role, g.lifespan, g.expires, ()))

structure AppParams where
  appId : String
deriving DecidableEq

def AppParams.codec : Codec AppParams :=
  (Fields.cons (.required "appId" .string) .nil).record.convert
    (fun (appId, ()) => ⟨appId⟩)
    (fun p => (p.appId, ()))

structure CapabilityParams where
  capability : String
deriving DecidableEq

def CapabilityParams.codec : Codec CapabilityParams :=
  (Fields.cons (.required "capability" .string) .nil).record.convert
    (fun (capability, ()) => ⟨capability⟩)
    (fun p => (p.capability, ()))

structure GrantModificationOptions where
  appId : Option String
deriving DecidableEq

def GrantModificationOptions.codec : Codec GrantModificationOptions :=
  (Fields.cons (.optional "appId" .string) .nil).record.convert
    (fun (appId, ()) => ⟨appId⟩)
    (fun o => (o.appId, ()))

structure GrantModification where
  role : Role
  capability : String
  options : Option GrantModificationOptions
deriving DecidableEq

def GrantModification.codec : Codec GrantModification :=
  (Fields.cons (.required "role" Role.codec) <|
    .cons (.required "capability" .string) <|
    .cons (.optional "options" GrantModificationOptions.codec) .nil).record.convert
    (fun (role, capability, options, ()) => ⟨role, capability, options⟩)
    (fun m => (m.role, m.capability, m.options, ()))

structure Permission where
  role : Option Role
  capability : String
deriving DecidableEq

def Permission.codec : Codec Permission :=
  (Fields.cons (.optional "role" Role.codec) <|
    .cons (.required "capability" .string) .nil).record.convert
    (fun (role, capability, ()) => ⟨role, capability⟩)
    (fun p => (p.role, p.capability, ()))

structure RequestOptions where
  force : Option Bool
deriving DecidableEq

def RequestOptions.codec : Codec RequestOptions :=
  (Fields.cons (.optional "force" .bool) .nil).record.convert
    (fun (force, ()) => ⟨force⟩)
    (fun o => (o.force, ()))

structure GrantRequest where
  appId : String
  permissions : List Permission
  options : Option RequestOptions
deriving DecidableEq

def GrantRequest.codec : Codec GrantRequest :=
  (Fields.cons (.required "appId" .string) <|
    .cons (.required "permissions" (.list Permission.codec)) <|
    .cons (.optional "options" RequestOptions.codec) .nil).record.convert
    (fun (appId, permissions, options, ()) => ⟨appId, permissions, options⟩)
    (fun r => (r.appId, r.permissions, r.options, ()))

end GatewayClient
