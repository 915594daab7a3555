/-
Numbers of the binary64 format, held as their 64-bit words and computed with exactly.  A word is
decoded to a whole number of units of 2^-1074, the smallest positive magnitude; `ofRatio?` rounds an
exact quotient back to the nearest word; `shortest` finds the fewest decimal digits that read back
as the same word.  No machine floating-point operation is involved.
-/

namespace GatewayClient

/-- A binary64 number, given by its word: sign, eleven bits of exponent, fifty-two of fraction. -/
structure Binary64 where
  word : UInt64
deriving DecidableEq, Repr

namespace Binary64

/-- The sign's place value in a word, 2^63. -/
def signUnit : Nat :=
  9223372036854775808

/-- The exponent's place value in a word and the leading bit of a significand, 2^52. -/
def exponentUnit : Nat :=
  4503599627370496

/-- Both zeros have a sign, so the sign is read off the word and not off the value. -/
def isNegative (x : Binary64) : Bool :=
  decide (signUnit ≤ x.word.toNat)

def exponentField (x : Binary64) : Nat :=
  x.word.toNat / exponentUnit % 2048

def fractionField (x : Binary64) : Nat :=
  x.word.toNat % exponentUnit

/-- The largest exponent field is kept for the infinities and for what is not a number. -/
def isFinite (x : Binary64) : Bool :=
  decide (x.exponentField < 2047)

/-- The digits of the magnitude: the leading bit is implied unless the exponent field is zero. -/
def significand (x : Binary64) : Nat :=
  if x.exponentField = 0 then x.fractionField else exponentUnit + x.fractionField

/-- The magnitude is `significand * 2 ^ scale` units of 2^-1074. -/
def scale (x : Binary64) : Nat :=
  x.exponentField - 1

/-- The magnitude of a finite number in units of 2^-1074. -/
def magnitude (x : Binary64) : Nat :=
  x.significand * Nat.pow 2 x.scale

/-- How many units of magnitude make one. -/
def unitsPerOne : Nat :=
  Nat.pow 2 1074

/-- The word with this sign over the given magnitude bits. -/
def ofBits (negative : Bool) (bits : Nat) : Binary64 :=
  ⟨UInt64.ofNat ((if negative then signUnit else 0) + bits)⟩

def zero (negative : Bool) : Binary64 :=
  ofBits negative 0

def isZero (x : Binary64) : Bool :=
  x.magnitude == 0

/-- The same magnitude under the other sign. -/
def neg (x : Binary64) : Binary64 :=
  ofBits (!x.isNegative) (x.word.toNat % signUnit)

/-- The whole number nearest to `n / d`; a tie goes to the even neighbour. -/
def nearest (n d : Nat) : Nat :=
  let q := n / d
  let r := n % d
  if 2 * r < d then q
  else if d < 2 * r then q + 1
  else if q % 2 = 0 then q else q + 1

/-- The number nearest to `n / d`, or nothing where that would be infinite.  With `scale` bits
dropped the quotient has at most 53 bits; a quotient that rounds up to 2^53 carries into the
exponent field, which is again the right word. -/
def ofRatio? (negative : Bool) (n d : Nat) : Option Binary64 :=
  let units := n * unitsPerOne
  let scale := Nat.log2 (units / d) - 52
  let bits := scale * exponentUnit + nearest units (d * Nat.pow 2 scale)
  if bits < 2047 * exponentUnit then some (ofBits negative bits) else none

/-- The nearest number to an integer; the integers of a wire value are all far below overflow. -/
def ofInt (i : Int) : Binary64 :=
  (ofRatio? (decide (i < 0)) i.natAbs 1).getD (zero false)

/-- The product of two magnitudes, or nothing where it is infinite. -/
def mul? (x y : Binary64) : Option Binary64 :=
  ofRatio? (x.isNegative != y.isNegative) (x.magnitude * y.magnitude) (unitsPerOne * unitsPerOne)

/-- The quotient by a number that is not zero, or nothing where it is infinite. -/
def div? (x y : Binary64) : Option Binary64 :=
  ofRatio? (x.isNegative != y.isNegative) x.magnitude y.magnitude

/-- The nearest number to a power of ten up to 10^308. -/
def powerOfTen (k : Nat) : Binary64 :=
  (ofRatio? false (Nat.pow 10 k) 1).getD (zero false)

/-- The least `k` with `n * 10 ^ k ≥ d`, looked for up to a bound. -/
def stepsBelowOne (n d : Nat) : Nat → Nat
  | 0 => 0
  | fuel + 1 => if d ≤ n then 0 else stepsBelowOne (n * 10) d fuel + 1

/-- The decimal position of a positive quotient: the `p` with `10 ^ (p - 1) ≤ n / d < 10 ^ p`. -/
def decimalPosition (n d : Nat) : Int :=
  if d ≤ n then ((Nat.toDigits 10 (n / d)).length : Int)
  else 1 - (stepsBelowOne n d 400 : Int)

/-- The interval of reals that round to a positive number, in quarters of a unit: the number itself,
the lower end and the upper end.  Below a power of two the neighbours are twice as dense. -/
def roundingInterval (x : Binary64) : Nat × Nat × Nat :=
  let middle := 4 * x.magnitude
  let half := 2 * Nat.pow 2 x.scale
  let isSparse := decide (x.fractionField = 0 ∧ 1 < x.exponentField)
  (middle, middle - (if isSparse then half / 2 else half), middle + half)

/-- Looks on the grid of multiples of `10 ^ exponent` for a point that rounds to `x`: one of the two
neighbours of `x` on the grid, the nearer if both do, the even one on a tie. -/
def gridPoint? (x : Binary64) (exponent : Int) : Option Nat :=
  let (middle, lower, upper) := x.roundingInterval
  let up := Nat.pow 10 exponent.toNat * (4 * unitsPerOne)
  let down := Nat.pow 10 (-exponent).toNat
  let below := middle * down / up
  let rounds (a : Nat) : Bool :=
    if x.significand % 2 = 0 then decide (lower * down ≤ a * up ∧ a * up ≤ upper * down)
    else decide (lower * down < a * up ∧ a * up < upper * down)
  let above := below + 1
  match rounds below, rounds above with
  | true, true => some (nearest (middle * down) up)
  | true, false => some below
  | false, true => some above
  | false, false => none

/-- Tries `digits`, `digits + 1`, … decimal digits; seventeen always suffice. -/
def shortestFrom (x : Binary64) (position : Int) : Nat → Nat → Nat × Int
  | 0, digits => ((x.gridPoint? (position - digits)).getD 0, position - digits)
  | fuel + 1, digits =>
    match x.gridPoint? (position - digits) with
    | some a => (a, position - digits)
    | none => shortestFrom x position fuel (digits + 1)

/-- Moves trailing zeros of a decimal into its exponent, at most as many as told. -/
def dropZeros : Nat → Nat × Int → Nat × Int
  | 0, d => d
  | fuel + 1, (a, e) => if a ≠ 0 ∧ a % 10 = 0 then dropZeros fuel (a / 10, e + 1) else (a, e)

/-- The shortest decimal `a * 10 ^ e` that rounds to the magnitude of a finite number other than
zero, and of those the nearest.  A neighbour above may be a power of ten, whose zeros are no digits.
-/
def shortest (x : Binary64) : Nat × Int :=
  dropZeros 17 (shortestFrom x (decimalPosition x.magnitude unitsPerOne) 16 1)

end Binary64

end GatewayClient
