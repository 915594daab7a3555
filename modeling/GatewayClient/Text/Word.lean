/-
Decimal digits, and the decimal texts of 64-bit words: an optional plus sign and one or more digits,
leading zeros allowed.
-/

namespace GatewayClient.Text

def isDigit (c : Char) : Bool :=
  decide ('0' ≤ c ∧ c ≤ '9')

/-- The number that a digit stands for. -/
def digitValue (c : Char) : Nat :=
  c.toNat - '0'.toNat

/-- The number that a run of digits spells. -/
def digitsValue (digits : List Char) : Nat :=
  digits.foldl (fun n c => 10 * n + digitValue c) 0

def dropPlus : List Char → List Char
  | '+' :: cs => cs
  | cs => cs

/-- The number below 2^64 that a text spells. -/
def readWord? (cs : List Char) : Option Nat :=
  let digits := dropPlus cs
  if digits ≠ [] ∧ digits.all isDigit ∧ digitsValue digits < UInt64.size then
    some (digitsValue digits)
  else none

end GatewayClient.Text
