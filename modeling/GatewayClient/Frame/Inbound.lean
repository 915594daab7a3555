/-
What comes in, told apart by its members: with `event` it is an event notice, with `method` and `id`
a provider call, with `method` alone an event notice again, and with `id` alone a reply.
-/
import GatewayClient.Frame.Basic
import GatewayClient.Json.Reader

namespace GatewayClient

/-- A frame that the platform sends. -/
inductive Inbound where
  | response (frame : Response)
  | event (frame : EventNotice)
  | providerCall (frame : ProviderCall)
deriving DecidableEq

/-- Why a text or a value is no frame. -/
inductive FrameFault where
  | notJson
  | notAnObject
  | unknownShape
  | badField (name : String)
deriving DecidableEq, Repr

namespace FrameFault

/-- The text of a fault; for a text that is not JSON it says where, which no rule here fixes. -/
def message? : FrameFault → Option String
  | notJson => none
  | notAnObject => some "frame is not an object"
  | unknownShape => some "unrecognized frame shape"
  | badField name => some ("field `" ++ name ++ "` has the wrong type")

end FrameFault

namespace Inbound

/-- The payload of a notice sent as a call: its params' member `value`, or else all of them. -/
def payloadOf (params : Json) : Json :=
  (params.get? "value").getD params

/-- A reply with this id.  A null error is none, and any other value is made an error object. -/
def responseOf (id : Json) (members : List (String × Json)) : Response where
  version := protocolVersion
  id := id
  result := Json.member? "result" members
  error :=
    match Json.member? "error" members with
    | none | some .null => none
    | some e => some (.ofWire e)

/-- The frame that a value is. -/
def classify : Json → Except FrameFault Inbound
  | .object members =>
    match Json.member? "event" members with
    | some (.string name) =>
      .ok (.event ⟨name, (Json.member? "value" members).getD .null⟩)
    | some _ => .error (.badField "event")
    | none =>
      match Json.member? "method" members, Json.member? "id" members with
      | some (.string method), id =>
        let params := (Json.member? "params" members).getD .null
        match id with
        | some id => .ok (.providerCall ⟨id, method, params⟩)
        | none => .ok (.event ⟨method, payloadOf params⟩)
      | some _, _ => .error (.badField "method")
      | none, some id => .ok (.response (responseOf id members))
      | none, none => .error .unknownShape
  | _ => .error .notAnObject

/-- The frame that a text spells. -/
def parse (text : String) : Except FrameFault Inbound :=
  match Json.parse? text with
  | some value => classify value
  | none => .error .notJson

/-- The value that a frame is written as. -/
def toJson : Inbound → Json
  | .response frame => frame.toJson
  | .event frame => EventNotice.codec.encode frame
  | .providerCall frame => ProviderCall.codec.encode frame

end Inbound

end GatewayClient
