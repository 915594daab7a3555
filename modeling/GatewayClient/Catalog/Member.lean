/-
Members of modules: properties, methods, events and the capabilities that applications provide.  A
member knows the names it puts on the wire; its entries list them with what each is used for.
-/
import GatewayClient.Shape.Payload
import GatewayClient.WireName

namespace GatewayClient

/-- What a wire name is used for. -/
inductive EntryKind where
  | getter
  | setter
  | method
  | event
  | provider
deriving DecidableEq, Repr

/-- A wire name with the module it belongs to, its use and the deadline it sets, in milliseconds. -/
structure Entry where
  name : String
  module : String
  kind : EntryKind
  timeout : Option Nat
deriving DecidableEq, Repr

/-- A value that can be read and listened to, and written if it is writable. -/
structure Property where
  module : String
  name : String
  payload : Payload
  writable : Bool
deriving DecidableEq, Repr

namespace Property

def getter (p : Property) : String :=
  WireName.method p.module p.name

def setter (p : Property) : String :=
  WireName.setter p.module p.name

def changeEvent (p : Property) : String :=
  WireName.changeEvent p.module p.name

def entries (p : Property) : List Entry :=
  [⟨p.getter, p.module, .getter, none⟩, ⟨p.changeEvent, p.module, .event, none⟩] ++
    if p.writable then [⟨p.setter, p.module, .setter, none⟩] else []

end Property

/-- A method; its own timeout, in milliseconds, goes before the client's. -/
structure Method where
  module : String
  name : String
  params : Payload
  result : Payload
  timeout : Option Nat := none
deriving DecidableEq, Repr

namespace Method

def wireName (m : Method) : String :=
  WireName.method m.module m.name

def entries (m : Method) : List Entry :=
  [⟨m.wireName, m.module, .method, m.timeout⟩]

end Method

/-- Something that happens, with what its notices carry. -/
structure Event where
  module : String
  name : String
  payload : Payload
deriving DecidableEq, Repr

namespace Event

def wireName (e : Event) : String :=
  WireName.method e.module e.name

def entries (e : Event) : List Entry :=
  [⟨e.wireName, e.module, .event, none⟩]

end Event

/-- Something that an application does for the platform. -/
structure Capability where
  module : String
  name : String
  request : Payload
  reply : Payload
deriving DecidableEq, Repr

namespace Capability

def wireName (c : Capability) : String :=
  WireName.method c.module c.name

def entries (c : Capability) : List Entry :=
  [⟨c.wireName, c.module, .provider, none⟩]

end Capability

/-- A member of a module. -/
inductive Member where
  | property (p : Property)
  | method (m : Method)
  | event (e : Event)
  | capability (c : Capability)
deriving DecidableEq, Repr

namespace Member

def entries : Member → List Entry
  | property p => p.entries
  | method m => m.entries
  | event e => e.entries
  | capability c => c.entries

end Member

end GatewayClient
