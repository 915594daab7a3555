/-
Reading settings from their text.  The text is read in order and the first fault in it counts: a key
given twice is refused where it is given again, and the values of unknown keys are passed over
without being built.  Settings may also be an array, by position.
-/
import GatewayClient.Settings.Basic
import GatewayClient.Json.Reader

namespace GatewayClient.Settings

/-- The members of settings, in order. -/
inductive Key where
  | waitTime
  | subscribeTimeout
  | cleanupInterval
  | gatewayUrl
  | logLevel
  | outboundBuffer
deriving DecidableEq, Repr

namespace Key

def all : List Key :=
  [waitTime, subscribeTimeout, cleanupInterval, gatewayUrl, logLevel, outboundBuffer]

def text : Key → String
  | waitTime => "waitTime"
  | subscribeTimeout => "subscribeTimeout"
  | cleanupInterval => "cleanupInterval"
  | gatewayUrl => "wsUrl"
  | logLevel => "logLevel"
  | outboundBuffer => "outboundBuffer"

def ofText? (text : String) : Option Key :=
  all.find? fun key => key.text == text

end Key

/-- What is not there is unreadable. -/
def orUnreadable {α : Type} : Option α → Except SettingsFault α
  | some a => .ok a
  | none => .error .unreadable

/-- Settings with the member `key` set to what a value says. -/
def set (s : Settings) (key : Key) (v : Json) : Except SettingsFault Settings :=
  match key with
  | .waitTime => (readDuration v).map fun ms => { s with waitTime := ms }
  | .subscribeTimeout => (readDuration v).map fun ms => { s with subscribeTimeout := ms }
  | .cleanupInterval => (readDuration v).map fun ms => { s with cleanupInterval := ms }
  | .gatewayUrl =>
    orUnreadable ((Codec.string.decode v).map fun url => { s with gatewayUrl := url })
  | .logLevel =>
    orUnreadable ((Codec.string.decode v).map fun level => { s with logLevel := level })
  | .outboundBuffer =>
    orUnreadable ((Codec.uint64.decode v).map fun n => { s with outboundBuffer := n })

/-- Reads the value of `key` at the head of a text. -/
def readField (s : Settings) (key : Key) (cs : List Char) :
    Except SettingsFault (Settings × List Char) := do
  let (v, rest) ← orUnreadable (Json.readValue (Json.depthLimit - 1) cs)
  let s ← s.set key v
  return (s, rest)

/-- Reads members after an opening brace, where there is at least one. -/
def readMembers :
    Nat → List Key → Settings → List Char → Except SettingsFault (Settings × List Char)
  | 0, _, _, _ => .error .unreadable
  | fuel + 1, seen, s, cs => do
    let (name, rest) ←
      match Json.skipBlank cs with
      | '"' :: rest => orUnreadable (Json.readText rest)
      | _ => .error .unreadable
    let key := Key.ofText? name
    if key.any (seen.contains ·) then .error .unreadable
    else
      let rest ←
        match Json.skipBlank rest with
        | ':' :: rest => .ok rest
        | _ => .error .unreadable
      let (s, rest) ←
        match key with
        | some key => s.readField key rest
        | none => (orUnreadable (Json.skipValue rest)).map fun rest => (s, rest)
      match Json.skipBlank rest with
      | ',' :: rest => readMembers fuel (key.toList ++ seen) s rest
      | '}' :: rest => .ok (s, rest)
      | _ => .error .unreadable

/-- Reads items after an opening bracket or a comma; every item has a key to be read for. -/
def readItems : List Key → Settings → List Char → Except SettingsFault (Settings × List Char)
  | [], _, _ => .error .unreadable
  | key :: keys, s, cs => do
    let (s, rest) ← s.readField key cs
    match Json.skipBlank rest with
    | ',' :: rest => readItems keys s rest
    | ']' :: rest => .ok (s, rest)
    | _ => .error .unreadable

/-- The settings at the head of a text. -/
def readSettings (cs : List Char) : Except SettingsFault (Settings × List Char) :=
  match Json.skipBlank cs with
  | '{' :: rest =>
    match Json.skipBlank rest with
    | '}' :: rest => .ok ({}, rest)
    | rest => readMembers (rest.length + 1) [] {} rest
  | '[' :: rest =>
    match Json.skipBlank rest with
    | ']' :: rest => .ok ({}, rest)
    | rest => readItems Key.all {} rest
  | _ => .error .unreadable

/-- The settings that a text spells, valid ones only. -/
def parse (text : String) : Except SettingsFault Settings := do
  let (s, rest) ← readSettings text.toList
  if !(Json.skipBlank rest).isEmpty then .error .unreadable
  else
    s.validate
    return s

end GatewayClient.Settings
