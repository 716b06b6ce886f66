import TextTemplate.Number.Shortest

/-!
Reading a number from a text: an optional sign, then `inf`, `infinity` or `nan` in any case, or
digits with an optional point and power of ten. The value is the nearest double.
-/
namespace TextTemplate.Number

def natOfDigits (ds : List Char) : Nat := ds.foldl (fun n d => 10 * n + (d.toNat - 48)) 0

/-- The leading digits of a text and what follows them. -/
def spanDigits (s : List Char) : List Char × List Char :=
  (s.takeWhile Char.isDigit, s.dropWhile Char.isDigit)

/-- A sign, when one stands in front, and what follows; `true` is negative. -/
def readSign : List Char → Bool × List Char
  | '-' :: r => (true, r)
  | '+' :: r => (false, r)
  | s => (false, s)

/-- A power of ten at the end of a number: nothing, or `e`, an optional sign and digits. -/
def readPower? : List Char → Option Int
  | [] => some 0
  | c :: r =>
    if c = 'e' ∨ c = 'E' then
      let (negative, ds) := readSign r
      if ds.isEmpty || !ds.all Char.isDigit then none
      else some (if negative then -(natOfDigits ds : Int) else natOfDigits ds)
    else none

/-- Digits around an optional point, at least one of them, and an optional power of ten. -/
def readDecimal? (s : List Char) : Option Decimal :=
  let (whole, rest) := spanDigits s
  let (fraction, rest) := match rest with
    | '.' :: r => spanDigits r
    | r => ([], r)
  if whole.isEmpty && fraction.isEmpty then none
  else (readPower? rest).map fun power =>
    ⟨natOfDigits (whole ++ fraction), power - fraction.length⟩

/-- The nearest double; powers of ten far outside the range of doubles are decided at once. -/
def Decimal.toFloat (d : Decimal) : Float :=
  if d.digits = 0 then 0
  else if d.exponent > 400 then 1 / 0
  else if d.exponent + (Nat.toDigits 10 d.digits).length < -400 then 0
  else Float.ofScientific d.digits (decide (d.exponent < 0)) d.exponent.natAbs

def readMagnitude? (s : List Char) : Option Float :=
  let word := s.map Char.toLower
  if word = "inf".toList ∨ word = "infinity".toList then some (1 / 0)
  else if word = "nan".toList then some (0 / 0)
  else (readDecimal? s).map Decimal.toFloat

def read? (s : List Char) : Option Float :=
  let (negative, r) := readSign s
  (readMagnitude? r).map fun x => if negative then -x else x

end TextTemplate.Number
