/-
Durations, in milliseconds.  As a text a duration is a number with the unit `ms`, `s` or `m`, or a
number of milliseconds without one; blanks may stand around the text and before the unit.
-/
import GatewayClient.Text.Blank
import GatewayClient.Text.Word

namespace GatewayClient

/-- The unit that the end of a duration's text claims; a fault is that of its unit. -/
inductive DurationUnit where
  | milliseconds
  | seconds
  | minutes
  | plain
deriving DecidableEq, Repr

namespace DurationUnit

/-- The milliseconds that a number of the unit makes.  Minutes become seconds in a word, which wraps
where it is too small for them. -/
def span (n : Nat) : DurationUnit → Nat
  | milliseconds => n
  | seconds => n * 1000
  | minutes => n * 60 % UInt64.size * 1000
  | plain => n

/-- The text of the fault that a number of this unit is none. -/
def fault : DurationUnit → String
  | milliseconds => "invalid milliseconds"
  | seconds => "invalid seconds"
  | minutes => "invalid minutes"
  | plain => "invalid duration format"

end DurationUnit

namespace Duration

/-- The unit that a trimmed text ends in, and the text before it.  `ms` is tried first, for it ends
in another unit. -/
def splitUnit (cs : List Char) : DurationUnit × List Char :=
  match Text.dropSuffix? ['m', 's'] cs with
  | some number => (.milliseconds, Text.trim number)
  | none =>
    match Text.dropSuffix? ['s'] cs with
    | some number => (.seconds, Text.trim number)
    | none =>
      match Text.dropSuffix? ['m'] cs with
      | some number => (.minutes, Text.trim number)
      | none => (.plain, cs)

/-- The milliseconds that a text spells. -/
def parse (text : String) : Except DurationUnit Nat :=
  let (unit, number) := splitUnit (Text.trim text.toList)
  match Text.readWord? number with
  | some n => .ok (unit.span n)
  | none => .error unit

end Duration

end GatewayClient
