/-
Payload shapes of the metrics module: what an application reports about content, pages, actions,
errors and the playing of media.
-/
import GatewayClient.Shape.Codec

namespace GatewayClient

structure ContentParams where
  entityId : Option String
deriving DecidableEq

def ContentParams.codec : Codec ContentParams :=
  (Fields.cons (.optional "entityId" .string) .nil).record.convert
    (fun (entityId, ()) => ⟨entityId⟩)
    (fun p => (p.entityId, ()))

structure PageParams where
  pageId : String
deriving DecidableEq

def PageParams.codec : Codec PageParams :=
  (Fields.cons (.required "pageId" .string) .nil).record.convert
    (fun (pageId, ()) => ⟨pageId⟩)
    (fun p => (p.pageId, ()))

inductive ActionCategory where
  | user
  | app
deriving DecidableEq

def ActionCategory.name : ActionCategory → String
  | user => "user"
  | app => "app"

def ActionCategory.codec : Codec ActionCategory :=
  .choice [.user, .app] name

structure ActionParams where
  category : ActionCategory
  type : String
  parameters : Option (List (String × Json))
deriving DecidableEq

def ActionParams.codec : Codec ActionParams :=
  (Fields.cons (.required "category" ActionCategory.codec) <|
    .cons (.required "type" .string) <|
    .cons (.optional "parameters" .members) .nil).record.convert
    (fun (category, type, parameters, ()) => ⟨category, type, parameters⟩)
    (fun p => (p.category, p.type, p.parameters, ()))

inductive ErrorType where
  | network
  | media
  | restriction
  | entitlement
  | other
deriving DecidableEq

def ErrorType.name : ErrorType → String
  | network => "network"
  | media => "media"
  | restriction => "restriction"
  | entitlement => "entitlement"
  | other => "other"

def ErrorType.codec : Codec ErrorType :=
  .choice [.network, .media, .restriction, .entitlement, .other] name

structure ErrorParams where
  type : ErrorType
  code : String
  description : String
  visible : Bool
  parameters : Option (List (String × Json))
deriving DecidableEq

def ErrorParams.codec : Codec ErrorParams :=
  (Fields.cons (.required "type" ErrorType.codec) <|
    .cons (.required "code" .string) <|
    .cons (.required "description" .string) <|
    .cons (.required "visible" .bool) <|
    .cons (.optional "parameters" .members) .nil).record.convert
    (fun (type, code, description, visible, parameters, ()) =>
      ⟨type, code, description, visible, parameters⟩)
    (fun p => (p.type, p.code, p.description, p.visible, p.parameters, ()))

structure MediaParams where
  entityId : String
deriving DecidableEq

def MediaParams.codec : Codec MediaParams :=
  (Fields.cons (.required "entityId" .string) .nil).record.convert
    (fun (entityId, ()) => ⟨entityId⟩)
    (fun p => (p.entityId, ()))

structure MediaProgressParams where
  entityId : String
  progress : Binary64
deriving DecidableEq

def MediaProgressParams.codec : Codec MediaProgressParams :=
  (Fields.cons (.required "entityId" .string) <|
    .cons (.required "progress" .double) .nil).record.convert
    (fun (entityId, progress, ()) => ⟨entityId, progress⟩)
    (fun p => (p.entityId, p.progress, ()))

structure MediaSeekingParams where
  entityId : String
  target : Binary64
deriving DecidableEq

def MediaSeekingParams.codec : Codec MediaSeekingParams :=
  (Fields.cons (.required "entityId" .string) <|
    .cons (.required "target" .double) .nil).record.convert
    (fun (entityId, target, ()) => ⟨entityId, target⟩)
    (fun p => (p.entityId, p.target, ()))

structure MediaSeekedParams where
  entityId : String
  position : Binary64
deriving DecidableEq

def MediaSeekedParams.codec : Codec MediaSeekedParams :=
  (Fields.cons (.required "entityId" .string) <|
    .cons (.required "position" .double) .nil).record.convert
    (fun (entityId, position, ()) => ⟨entityId, position⟩)
    (fun p => (p.entityId, p.position, ()))

structure MediaRateChangeParams where
  entityId : String
  rate : Binary64
deriving DecidableEq

def MediaRateChangeParams.codec : Codec MediaRateChangeParams :=
  (Fields.cons (.required "entityId" .string) <|
    .cons (.required "rate" .double) .nil).record.convert
    (fun (entityId, rate, ()) => ⟨entityId, rate⟩)
    (fun p => (p.entityId, p.rate, ()))

structure MediaRenditionChangeParams where
  entityId : String
  bitrate : UInt64
  width : UInt32
  height : UInt32
  profile : Option String
deriving DecidableEq

def MediaRenditionChangeParams.codec : Codec MediaRenditionChangeParams :=
  (Fields.cons (.required "entityId" .string) <|
    .cons (.required "bitrate" .uint64) <|
    .cons (.required "width" .uint32) <|
    .cons (.required "height" .uint32) <|
    .cons (.optional "profile" .string) .nil).record.convert
    (fun (entityId, bitrate, width, height, profile, ()) =>
      ⟨entityId, bitrate, width, height, profile⟩)
    (fun p => (p.entityId, p.bitrate, p.width, p.height, p.profile, ()))

end GatewayClient
