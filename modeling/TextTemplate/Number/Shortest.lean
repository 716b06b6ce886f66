import TextTemplate.Number.Binary

/-!
The shortest decimal that reads back as the same double. The doubles' reals form intervals around
them; on each decimal grid, from the coarsest down, the two neighbours of the value are tried, and
the first grid with a neighbour inside the interval wins.

The plain text of a number has no fraction for whole numbers below 10^21, and is the shortest decimal
for all others; exponent form is never used. Zero has no sign.
-/
namespace TextTemplate.Number

/-- A decimal `digits * 10 ^ exponent`. -/
structure Decimal where
  digits : Nat
  exponent : Int
  deriving DecidableEq, Repr

/-- The reals that round to a magnitude, in units of a quarter of its last binary place. The
interval below a power of two is half as wide; the ends belong to it iff the mantissa is even. -/
structure Basin where
  low : Nat
  value : Nat
  high : Nat
  exponent : Int
  closed : Bool

def Basin.of (mantissa : Nat) (exponent : Int) : Basin where
  low := if mantissa = Nat.pow 2 52 ∧ exponent > -1074 then 4 * mantissa - 1 else 4 * mantissa - 2
  value := 4 * mantissa
  high := 4 * mantissa + 2
  exponent := exponent - 2
  closed := mantissa % 2 = 0

/-- The neighbour of the value on the grid of multiples of `10 ^ k` that lies in the basin; of two
the nearer one, and the upper one when both are equally near. -/
def Basin.onGrid? (b : Basin) (k : Int) : Option Nat :=
  let up := scaleUp 2 b.exponent * scaleDown 10 k
  let unit := scaleDown 2 b.exponent * scaleUp 10 k
  let below := b.value * up / unit
  let above := below + 1
  let belowIn := if b.closed then b.low * up ≤ below * unit else b.low * up < below * unit
  let aboveIn := if b.closed then above * unit ≤ b.high * up else above * unit < b.high * up
  let nearBelow := b.value * up - below * unit
  let nearAbove := above * unit - b.value * up
  if belowIn ∧ (¬ aboveIn ∨ nearBelow < nearAbove) then some below
  else if aboveIn then some above
  else none

/-- Tries the grids `10 ^ k`, `10 ^ (k - 1)`, … -/
def Basin.coarsest (b : Basin) : (fuel : Nat) → (k : Int) → Decimal
  | 0, k => ⟨b.value * scaleUp 2 b.exponent * scaleDown 10 k /
      (scaleDown 2 b.exponent * scaleUp 10 k), k⟩
  | fuel + 1, k =>
    match b.onGrid? k with
    | some digits => ⟨digits, k⟩
    | none => b.coarsest fuel (k - 1)

/-- Seventeen digits always identify a double, so the search needs few grids. -/
def shortest (mantissa : Nat) (exponent : Int) : Decimal :=
  if mantissa = 0 then ⟨0, 0⟩
  else (Basin.of mantissa exponent).coarsest 24 (decimalBound mantissa exponent)

/-- Decimal digits of a number, padded with zeros on the left to at least `width` of them. -/
def digitsOf (width n : Nat) : List Char :=
  let ds := Nat.toDigits 10 n
  List.replicate (width - ds.length) '0' ++ ds

/-- The number `n / 10 ^ places` with exactly `places` digits after the point, and no point when
there are none. -/
def pointed (n places : Nat) : List Char :=
  if places = 0 then digitsOf 1 n
  else digitsOf 1 (n / Nat.pow 10 places) ++ '.' :: digitsOf places (n % Nat.pow 10 places)

/-- All digits of a decimal, never in exponent form. -/
def Decimal.positional (d : Decimal) : List Char :=
  if 0 ≤ d.exponent then digitsOf 1 (d.digits * Nat.pow 10 d.exponent.toNat)
  else pointed d.digits (-d.exponent).toNat

/-- Whether `mantissa * 2 ^ exponent` is a whole number below 10^21. -/
def isSmallWhole (mantissa : Nat) (exponent : Int) : Bool :=
  mantissa * scaleUp 2 exponent % scaleDown 2 exponent = 0 &&
    mantissa * scaleUp 2 exponent < Nat.pow 10 21 * scaleDown 2 exponent

def plainMagnitude : Magnitude → List Char
  | .nan => "NaN".toList
  | .infinite => "Infinity".toList
  | .finite m e =>
    if isSmallWhole m e then Nat.toDigits 10 (m * scaleUp 2 e / scaleDown 2 e)
    else (shortest m e).positional

def plain (x : Float) : String :=
  let text := plainMagnitude (magnitude x)
  String.ofList (if x < 0 then '-' :: text else text)

end TextTemplate.Number
