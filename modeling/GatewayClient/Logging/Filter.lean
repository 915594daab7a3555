/-
Log filters.  What a filter's text says is told by a language: how a text is read, and which events
pass.  The language of directives has them between commas, each a level, a target, or a target with
the level for it; of those whose target begins an event's the longest decides, of equals the last.
-/
import GatewayClient.WireName

namespace GatewayClient

/-- How much is let through, from nothing to everything. -/
inductive LogLevel where
  | off
  | error
  | warn
  | info
  | debug
  | trace
deriving DecidableEq, Repr

namespace LogLevel

/-- The level's place in the order. -/
def rank : LogLevel → Nat
  | off => 0
  | error => 1
  | warn => 2
  | info => 3
  | debug => 4
  | trace => 5

/-- The level of a name, in any case of its letters, or of a digit. -/
def ofText? (text : String) : Option LogLevel :=
  let name := WireName.lower text
  if name = "off" ∨ name = "0" then some off
  else if name = "error" ∨ name = "1" then some error
  else if name = "warn" ∨ name = "2" then some warn
  else if name = "info" ∨ name = "3" then some info
  else if name = "debug" ∨ name = "4" then some debug
  else if name = "trace" ∨ name = "5" then some trace
  else none

end LogLevel

/-- A language of filters: what a text says, if it is well formed, and whether what it says lets
events of a target and level pass. -/
structure FilterLanguage (F : Type) where
  parse? : String → Option F
  admits : F → String → LogLevel → Bool

/-- A rule of a filter: for targets that begin so, up to this level. -/
structure Directive where
  target : String
  level : LogLevel
deriving DecidableEq, Repr

namespace LogFilter

/-- The pieces of a text between the characters `mark`. -/
def splitAt (mark : Char) : List Char → List (List Char)
  | [] => [[]]
  | c :: rest =>
    if c = mark then [] :: splitAt mark rest
    else
      match splitAt mark rest with
      | piece :: pieces => (c :: piece) :: pieces
      | [] => [[c]]

/-- The target of a name, which has at least one character, all letters, digits and `_`, `-`, `:`.
-/
def target? (name : List Char) : Option String :=
  if !name.isEmpty && name.all fun c => c.isAlphanum || c ∈ ['_', '-', ':'] then
    some (String.ofList name)
  else none

/-- The directive that a piece spells: a name that is no level is a target, let through in full. -/
def directive? (piece : List Char) : Option Directive :=
  match splitAt '=' piece with
  | [name] =>
    match LogLevel.ofText? (String.ofList name) with
    | some level => some ⟨"", level⟩
    | none => (target? name).map fun target => ⟨target, .trace⟩
  | [name, level] =>
    (target? name).bind fun target =>
      if level.isEmpty then some ⟨target, .trace⟩
      else (LogLevel.ofText? (String.ofList level)).map fun level => ⟨target, level⟩
  | _ => none

/-- The directives of a filter, if every one is well formed; empty pieces are none. -/
def parse? (filter : String) : Option (List Directive) :=
  ((splitAt ',' filter.toList).filter fun piece => !piece.isEmpty).mapM directive?

/-- The directive that decides about a target. -/
def decisive? (target : String) (directives : List Directive) : Option Directive :=
  directives.foldl
    (fun best d =>
      if d.target.toList.isPrefixOf target.toList then
        match best with
        | some b => if d.target.length < b.target.length then best else some d
        | none => some d
      else best)
    none

/-- Whether events of a level and target pass. -/
def admits (directives : List Directive) (target : String) (level : LogLevel) : Bool :=
  match decisive? target directives with
  | some d => decide (level.rank ≤ d.level.rank)
  | none => false

/-- The language of directives. -/
def language : FilterLanguage (List Directive) :=
  ⟨parse?, admits⟩

end LogFilter

end GatewayClient
