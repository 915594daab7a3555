/-
Writing JSON text, compactly: no blanks, members in the order the object lists them, and every
number in a form that reads back.
-/
import GatewayClient.Json.Value

namespace GatewayClient.Json

/-- How binary64 numbers are written: positional from 10^-5 up to but not including 10^16, with at
least one digit after the point; else one digit before it and a signed exponent. -/
structure DoubleFormat where
  leastPositional : Int
  mostPositional : Int
  point : Char
  exponentMark : Char
  plusSign : Bool

/-- The format of this wire. -/
def doubleFormat : DoubleFormat :=
  ⟨-5, 15, '.', 'e', true⟩

/-- The text of a decimal with these digits whose first stands at the power `exponent` of ten. -/
def writeDecimal (format : DoubleFormat) (digits : List Char) (exponent : Int) : List Char :=
  if format.leastPositional ≤ exponent ∧ exponent ≤ format.mostPositional then
    if exponent < 0 then
      '0' :: format.point :: (List.replicate (-exponent - 1).toNat '0' ++ digits)
    else
      let whole := exponent.toNat + 1
      let padded := digits ++ List.replicate (whole - digits.length) '0'
      let fraction := digits.drop whole
      padded.take whole ++ format.point :: (if fraction.isEmpty then ['0'] else fraction)
  else
    let mantissa := match digits with
      | first :: second :: rest => first :: format.point :: second :: rest
      | single => single
    let sign := if exponent < 0 then ['-'] else if format.plusSign then ['+'] else []
    mantissa ++ format.exponentMark :: sign ++ Nat.toDigits 10 exponent.natAbs

/-- A finite number by its shortest digits; what is not finite has no numeral and is null. -/
def writeDouble (x : Binary64) : List Char :=
  if !x.isFinite then ['n', 'u', 'l', 'l']
  else
    let sign := if x.isNegative then ['-'] else []
    if x.isZero then sign ++ ['0', '.', '0']
    else
      let (a, e) := x.shortest
      let digits := Nat.toDigits 10 a
      sign ++ writeDecimal doubleFormat digits (e + digits.length - 1)

def writeInteger : Int → List Char
  | .ofNat n => Nat.toDigits 10 n
  | .negSucc n => '-' :: Nat.toDigits 10 (n + 1)

def hexDigit (n : Nat) : Char :=
  if n < 10 then Char.ofNat ('0'.toNat + n) else Char.ofNat ('a'.toNat + (n - 10))

/-- A character inside a string: quotes, backslashes and control characters are escaped. -/
def writeChar (c : Char) : List Char :=
  if c = '"' then ['\\', '"']
  else if c = '\\' then ['\\', '\\']
  else if c = '\x08' then ['\\', 'b']
  else if c = '\x0c' then ['\\', 'f']
  else if c = '\n' then ['\\', 'n']
  else if c = '\r' then ['\\', 'r']
  else if c = '\t' then ['\\', 't']
  else if c.toNat < 0x20 then
    ['\\', 'u', '0', '0', hexDigit (c.toNat / 16), hexDigit (c.toNat % 16)]
  else [c]

def writeText (text : String) : List Char :=
  '"' :: (text.toList.flatMap writeChar ++ ['"'])

mutual

/-- The characters of a value. -/
def write : Json → List Char
  | .null => ['n', 'u', 'l', 'l']
  | .bool true => ['t', 'r', 'u', 'e']
  | .bool false => ['f', 'a', 'l', 's', 'e']
  | .integer i => writeInteger i
  | .double x => writeDouble x
  | .string text => writeText text
  | .array items => '[' :: writeItems items
  | .object members => '{' :: writeMembers members

/-- The items of an array and its closing bracket. -/
def writeItems : List Json → List Char
  | [] => [']']
  | [v] => write v ++ [']']
  | v :: rest => write v ++ ',' :: writeItems rest

/-- The members of an object and its closing brace. -/
def writeMembers : List (String × Json) → List Char
  | [] => ['}']
  | [(k, v)] => writeText k ++ ':' :: write v ++ ['}']
  | (k, v) :: rest => writeText k ++ ':' :: write v ++ ',' :: writeMembers rest

end

/-- The compact text of a value. -/
def render (value : Json) : String :=
  String.ofList (write value)

end GatewayClient.Json
