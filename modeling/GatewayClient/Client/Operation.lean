/-
What an application does with a member of a module: reading, writing and listening to a property,
calling a method, listening to an event, and providing a capability.  Each is an activity of the
client under the member's wire names.
-/
import GatewayClient.Catalog.Basic
import GatewayClient.Client.Job

namespace GatewayClient

/-- Access to the properties of one module, by their names. -/
structure PropertyAccessor where
  module : String

namespace PropertyAccessor

/-- Reads a property, whose value is of a payload. -/
def get (a : PropertyAccessor) (property : String) (payload : Payload) : Activity :=
  .call ⟨WireName.method a.module property, some (.object []), none⟩ (.payload payload)

/-- Writes a property.  The value may be one that cannot be written; what the platform returns is of
no account. -/
def set (a : PropertyAccessor) (property : String) (value : Option Json) : Activity :=
  .call ⟨WireName.setter a.module property, value.map fun v => .object [("value", v)], none⟩
    .nothing

end PropertyAccessor

namespace Property

/-- Access to the module of the property. -/
def accessor (p : Property) : PropertyAccessor :=
  ⟨p.module⟩

/-- Reads the value. -/
def get (p : Property) : Activity :=
  p.accessor.get p.name p.payload

/-- The call that writes a value, which may be one that cannot be written. -/
def setTo (p : Property) (value : Option Json) : Activity :=
  p.accessor.set p.name value

/-- The accessor reads a property by the name that its entry has. -/
theorem get_eq (p : Property) :
    p.get = .call ⟨p.getter, some (.object []), none⟩ (.payload p.payload) :=
  rfl

/-- The accessor writes a property by the name that its setter's entry has. -/
theorem setTo_eq (p : Property) (value : Option Json) :
    p.setTo value = .call ⟨p.setter, value.map fun v => .object [("value", v)], none⟩ .nothing :=
  rfl

/-- Writes a value, if the property is writable and the value is one of it. -/
def set? (p : Property) (value : Json) : Option Activity :=
  if p.writable then (p.payload.normalize value).map fun v => p.setTo (some v) else none

/-- Listens for changes. -/
def onChange (p : Property) (listenerName : String) : Activity :=
  .change (.subscribe p.changeEvent { name := listenerName, payload := p.payload })

/-- Stops listening for changes. -/
def offChange (p : Property) (id : UInt64) : Activity :=
  .change (.unsubscribe p.changeEvent id)

end Property

namespace Method

/-- Calls the method, if the params are ones of it. -/
def call? (m : Method) (params : Json) : Option Activity :=
  (m.params.normalize params).map fun v =>
    .call ⟨m.wireName, some v, m.timeout⟩ (.payload m.result)

end Method

namespace Event

/-- Listens to the event. -/
def subscribe (e : Event) (listenerName : String) : Activity :=
  .change (.subscribe e.wireName { name := listenerName, payload := e.payload })

/-- Stops listening to the event. -/
def unsubscribe (e : Event) (id : UInt64) : Activity :=
  .change (.unsubscribe e.wireName id)

end Event

namespace Capability

/-- A handler of the capability that is noted under a label. -/
def handler (c : Capability) (handlerName label : String) (script : Script) : Handler :=
  .scripted handlerName (some label) c.request c.reply script

/-- Provides the capability. -/
def provide (c : Capability) (handlerName label : String) (script : Script) : Activity :=
  .change (.provide c.wireName (c.handler handlerName label script))

/-- Provides no longer. -/
def revoke (c : Capability) : Activity :=
  .change (.revoke c.wireName)

/-- Provides several capabilities by one name, all or none; each has its label. -/
def provideAll (capabilities : List (Capability × String)) (handlerName : String)
    (script : Script) : Activity :=
  .provideAll (capabilities.map fun (c, label) => (c.wireName, c.handler handlerName label script))

end Capability

namespace Catalog

/-- What an application can do for the platform as a whole. -/
inductive Service where
  | keyboard
  | pin
  | acknowledge
deriving DecidableEq, Repr

namespace Service

/-- The capabilities of a service, with the labels of their handlers. -/
def capabilities : Service → List (Capability × String)
  | keyboard =>
    [(keyboardStandard, "standard"), (keyboardPassword, "password"), (keyboardEmail, "email")]
  | pin => [(pinChallenge, "pin")]
  | acknowledge => [(acknowledgeChallenge, "ack")]

/-- Provides the capabilities of a service, all or none. -/
def provide (s : Service) (handlerName : String) (script : Script) : Activity :=
  Capability.provideAll s.capabilities handlerName script

end Service

end Catalog

end GatewayClient
