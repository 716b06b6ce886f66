/-!
What a double holds: a magnitude `mantissa * 2 ^ exponent`, or no finite number at all. Exact
rational arithmetic on magnitudes is done by scaling with powers of two and ten.
-/
namespace TextTemplate.Number

inductive Magnitude where
  | nan
  | infinite
  | finite (mantissa : Nat) (exponent : Int)
  deriving DecidableEq, Repr

/-- The magnitude held by the 63 low bits of a double. -/
def Magnitude.ofBits (bits : Nat) : Magnitude :=
  let fraction : Nat := bits % Nat.pow 2 52
  let level : Nat := bits / Nat.pow 2 52 % 2048
  if level = 2047 then if fraction = 0 then .infinite else .nan
  else if level = 0 then .finite fraction (-1074)
  else .finite (Nat.pow 2 52 + fraction) ((level : Int) - 1075)

def magnitude (x : Float) : Magnitude := Magnitude.ofBits x.toBits.toNat

/-- Whether the sign bit is set; this tells the two zeros apart. -/
def signBit (x : Float) : Bool := Nat.pow 2 63 ≤ x.toBits.toNat

/-- The part of `base ^ k` that multiplies. -/
def scaleUp (base : Nat) (k : Int) : Nat := Nat.pow base k.toNat

/-- The part of `base ^ k` that divides. -/
def scaleDown (base : Nat) (k : Int) : Nat := Nat.pow base (-k).toNat

/-- How a quotient of two numbers goes to a whole one. -/
inductive Rounding where
  | halfEven
  | halfUp
  deriving DecidableEq, Repr

def roundDiv (mode : Rounding) (num den : Nat) : Nat :=
  let q := num / den
  let twice := 2 * (num % den)
  if twice < den then q
  else if twice > den then q + 1
  else match mode with
    | .halfEven => if q % 2 = 0 then q else q + 1
    | .halfUp => q + 1

/-- A whole number no smaller than the decimal logarithm of every magnitude below
`(mantissa + 1) * 2 ^ exponent`. -/
def decimalBound (mantissa : Nat) (exponent : Int) : Int :=
  (exponent + mantissa.log2 + 1) * 30103 / 100000 + 2

/-- The largest `k` at most `start` with `10 ^ k ≤ mantissa * 2 ^ exponent`, looked for in `fuel`
steps. -/
def leadingPower (mantissa : Nat) (exponent : Int) : (fuel : Nat) → (start : Int) → Int
  | 0, k => k
  | fuel + 1, k =>
    if scaleUp 10 k * scaleDown 2 exponent ≤ mantissa * scaleUp 2 exponent * scaleDown 10 k then k
    else leadingPower mantissa exponent fuel (k - 1)

end TextTemplate.Number
