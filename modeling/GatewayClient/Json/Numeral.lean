/-
Numbers of JSON text.  A numeral is split into its digits first and valued after: a plain run of
digits that fits a 64-bit word is an integer; every other numeral is a binary64, computed from as
many leading digits as fit a word, scaled by a power of ten with one rounding of each.  That is
close to the nearest number and not always equal to it, so the steps are part of the format.
-/
import GatewayClient.Json.Value
import GatewayClient.Text.Word

namespace GatewayClient.Json

open Text (isDigit digitValue digitsValue)

/-- A numeral taken apart: its sign, the digits before the point, those after it, and the exponent's
sign and digits.  A numeral without point or exponent has none of the last two. -/
structure Numeral where
  negative : Bool
  whole : List Char
  fraction : Option (List Char)
  exponent : Option (Bool × List Char)
deriving Repr

namespace Numeral

/-- A run of one or more digits and what follows it. -/
def readDigits (cs : List Char) : Option (List Char × List Char) :=
  match cs.takeWhile isDigit with
  | [] => none
  | digits => some (digits, cs.dropWhile isDigit)

/-- The digits before the point: a leading zero stands alone. -/
def readWhole (cs : List Char) : Option (List Char × List Char) :=
  match readDigits cs with
  | some (['0'], rest) => some (['0'], rest)
  | some ('0' :: _, _) => none
  | result => result

/-- A point has a digit after it. -/
def readFraction : List Char → Option (Option (List Char) × List Char)
  | '.' :: cs => (readDigits cs).map fun (digits, rest) => (some digits, rest)
  | cs => some (none, cs)

/-- The sign of an exponent; without one it is positive. -/
def readExponentSign : List Char → Bool × List Char
  | '+' :: cs => (false, cs)
  | '-' :: cs => (true, cs)
  | cs => (false, cs)

/-- An exponent mark has a digit after it and its sign. -/
def readExponent : List Char → Option (Option (Bool × List Char) × List Char)
  | [] => some (none, [])
  | c :: cs =>
    if c = 'e' ∨ c = 'E' then
      let (negative, cs) := readExponentSign cs
      (readDigits cs).map fun (digits, rest) => (some (negative, digits), rest)
    else some (none, c :: cs)

def readSign : List Char → Bool × List Char
  | '-' :: cs => (true, cs)
  | cs => (false, cs)

/-- The numeral at the head of a text, and the rest. -/
def read (cs : List Char) : Option (Numeral × List Char) := do
  let (negative, cs) := readSign cs
  let (whole, cs) ← readWhole cs
  let (fraction, cs) ← readFraction cs
  let (exponent, cs) ← readExponent cs
  return (⟨negative, whole, fraction, exponent⟩, cs)

/-- The largest significand that is kept exactly. -/
def wordMax : Nat :=
  UInt64.size - 1

/-- Takes digits into a significand until the next would not fit a word; counts those taken. -/
def absorb (significand : Nat) : List Char → Nat × Nat
  | [] => (significand, 0)
  | c :: rest =>
    let next := 10 * significand + digitValue c
    if wordMax < next then (significand, 0)
    else
      let (result, taken) := absorb next rest
      (result, taken + 1)

/-- Divides by `10 ^ k`, 10^308 at a time, stopping at zero. -/
def scaleDown (x : Binary64) (k : Nat) : Binary64 :=
  if k ≤ 308 then (x.div? (.powerOfTen k)).getD x
  else if x.isZero then x
  else scaleDown ((x.div? (.powerOfTen 308)).getD x) (k - 308)
termination_by k

/-- `significand * 10 ^ exponent`, or nothing where that is infinite. -/
def scaled? (significand : Nat) (exponent : Int) : Option Binary64 :=
  let x := Binary64.ofInt significand
  if exponent < 0 then some (scaleDown x (-exponent).toNat)
  else if exponent ≤ 308 then x.mul? (.powerOfTen exponent.toNat)
  else if x.isZero then some x
  else none

/-- The exponent that a numeral spells out; beyond 31 bits it counts as endless. -/
def exponentValue : Option (Bool × List Char) → Int
  | none => 0
  | some (negative, digits) =>
    let n : Int := digitsValue digits
    if negative then -n else n

/-- The value of a numeral, or nothing where it is infinite. -/
def value? (n : Numeral) : Option Json :=
  let (whole, taken) := absorb 0 n.whole
  let dropped := n.whole.length - taken
  match n.fraction, n.exponent with
  | none, none =>
    if dropped ≠ 0 then
      (scaled? whole dropped).map fun x => .double (if n.negative then x.neg else x)
    else if n.negative then
      if whole = 0 ∨ Binary64.signUnit < whole then some (.double (Binary64.ofInt whole).neg)
      else some (.integer (-(whole : Int)))
    else some (.integer whole)
  | fraction, exponent =>
    let (significand, places) := absorb whole (fraction.getD [])
    (scaled? significand (exponentValue exponent + dropped - places)).map fun x =>
      .double (if n.negative then x.neg else x)

end Numeral

end GatewayClient.Json
