import TextTemplate.Number.Reading

/-!
Number specifiers, `[sign][$][0][width][,][.precision][type]`: how one is read, and how a number is
laid out by it. A number with a given number of digits, after the point or after the first digit in
exponent form, is rounded once, from the exact value.
-/
namespace TextTemplate.Number

inductive SignRule where
  | plus
  | minus
  | space
  deriving DecidableEq, Repr

inductive Style where
  | whole
  | fixed
  | exponent
  | percent
  deriving DecidableEq, Repr

/-- A specifier as read. Width and precision are already within their limits. -/
structure Spec where
  sign : Option SignRule
  currency : Bool
  zero : Bool
  width : Nat
  grouping : Bool
  precision : Option Nat
  style : Option Style
  deriving DecidableEq, Repr

def maxWidth : Nat := 1024

def maxPrecision : Nat := 20

/-- A run of digits must denote a number of 64 bits. -/
def readCount? (ds : List Char) : Option Nat :=
  let n := natOfDigits ds
  if n < Nat.pow 2 64 then some n else none

def readSignRule : List Char → Option SignRule × List Char
  | '+' :: r => (some .plus, r)
  | '-' :: r => (some .minus, r)
  | ' ' :: r => (some .space, r)
  | s => (none, s)

/-- Takes one given character off the front, when it stands there. -/
def readMark (mark : Char) : List Char → Bool × List Char
  | c :: r => if c = mark then (true, r) else (false, c :: r)
  | [] => (false, [])

/-- An optional width; no digits mean none. -/
def readWidth? (s : List Char) : Option (Nat × List Char) :=
  let (ds, r) := spanDigits s
  if ds.isEmpty then some (0, r)
  else (readCount? ds).map fun n => (min n maxWidth, r)

/-- An optional point, after which at least one digit must stand. -/
def readPrecision? : List Char → Option (Option Nat × List Char)
  | '.' :: s =>
    let (ds, r) := spanDigits s
    if ds.isEmpty then none
    else (readCount? ds).map fun n => (some (min n maxPrecision), r)
  | s => some (none, s)

def readStyle : List Char → Option Style × List Char
  | 'd' :: r => (some .whole, r)
  | 'f' :: r => (some .fixed, r)
  | 'e' :: r => (some .exponent, r)
  | '%' :: r => (some .percent, r)
  | s => (none, s)

def Spec.read? (text : List Char) : Option Spec := do
  let (sign, s) := readSignRule text
  let (currency, s) := readMark '$' s
  let (zero, s) := readMark '0' s
  let (width, s) ← readWidth? s
  let (grouping, s) := readMark ',' s
  let (precision, s) ← readPrecision? s
  let (style, s) := readStyle s
  if s.isEmpty then some { sign, currency, zero, width, grouping, precision, style } else none

/-- `places` digits after the point. -/
def fixedDigits (places mantissa : Nat) (exponent : Int) : List Char :=
  let scaled := mantissa * scaleUp 2 exponent * Nat.pow 10 places
  pointed (roundDiv .halfEven scaled (scaleDown 2 exponent)) places

/-- One digit, a point, `places` more digits and the signed power of ten. -/
def exponentDigits (places mantissa : Nat) (exponent : Int) : List Char :=
  let (digits, power) : Nat × Int :=
    if mantissa = 0 then (0, 0)
    else
      let power := leadingPower mantissa exponent 8 (decimalBound mantissa exponent)
      let grid := power - places
      let digits := roundDiv .halfEven (mantissa * scaleUp 2 exponent * scaleDown 10 grid)
        (scaleDown 2 exponent * scaleUp 10 grid)
      if digits = Nat.pow 10 (places + 1) then (Nat.pow 10 places, power + 1) else (digits, power)
  let sign := if power < 0 then '-' else '+'
  pointed digits places ++ 'e' :: sign :: Nat.toDigits 10 power.natAbs

/-- The nearest whole number, a half going up. -/
def wholeDigits (mantissa : Nat) (exponent : Int) : List Char :=
  Nat.toDigits 10 (roundDiv .halfUp (mantissa * scaleUp 2 exponent) (scaleDown 2 exponent))

/-- Commas between groups of three digits, counted from the end of the run. -/
def groupDigits : List Char → List Char
  | [] => []
  | c :: r =>
    if r.length % 3 = 0 ∧ r ≠ [] then c :: ',' :: groupDigits r else c :: groupDigits r

/-- Groups the digits a text starts with and keeps the rest. -/
def groupThousands (body : List Char) : List Char :=
  groupDigits (body.takeWhile Char.isDigit) ++ body.dropWhile Char.isDigit

/-- A magnitude with the text that stands for infinity in the fixed styles. -/
def onFinite (write : Nat → Int → List Char) : Magnitude → List Char
  | .finite m e => write m e
  | .infinite => "inf".toList
  | .nan => "NaN".toList

/-- Digits of the magnitude of `x` in the style asked for; six places when none are given. -/
def Spec.digits (spec : Spec) (x : Float) : List Char :=
  let places := spec.precision.getD 6
  match spec.style, spec.precision with
  | some .whole, _ => onFinite wholeDigits (magnitude x)
  | some .fixed, _ => onFinite (fixedDigits places) (magnitude x)
  | some .exponent, _ => onFinite (exponentDigits places) (magnitude x)
  | some .percent, _ => onFinite (fixedDigits places) (magnitude (x.abs * 100)) ++ ['%']
  | none, some p => onFinite (fixedDigits p) (magnitude x)
  | none, none => plainMagnitude (magnitude x)

def Spec.body (spec : Spec) (x : Float) : List Char :=
  if spec.grouping ∧ spec.style ≠ some .exponent then groupThousands (spec.digits x)
  else spec.digits x

def isNonzeroDigit (c : Char) : Bool := '1' ≤ c && c ≤ '9'

/-- A number that rounds to zero has no minus sign. -/
def Spec.signOf (spec : Spec) (negative : Bool) (body : List Char) : List Char :=
  if negative && body.any isNonzeroDigit then ['-']
  else match spec.sign with
    | some .plus => ['+']
    | some .space => [' ']
    | _ => []

/-- Sign and currency stand in front of the body; padding goes before them, or zeros between. -/
def Spec.layout (spec : Spec) (sign body : List Char) : List Char :=
  let currency := if spec.currency then ['$'] else []
  let pad := spec.width - (sign.length + currency.length + body.length)
  if spec.zero then sign ++ currency ++ List.replicate pad '0' ++ body
  else List.replicate pad ' ' ++ sign ++ currency ++ body

def Spec.write (spec : Spec) (x : Float) : List Char :=
  if x.isNaN then "NaN".toList
  else
    let body := spec.body x
    spec.layout (spec.signOf (decide (x < 0)) body) body

/-- A specifier outside the grammar. -/
inductive FormatError where
  | unsupported (spec : String)
  deriving DecidableEq, Repr

def FormatError.message : FormatError → String
  | .unsupported spec => "unsupported format specifier '" ++ spec ++ "'"

/-- Writes a number by a specifier, or refuses the specifier. -/
abbrev Formatter := String → Float → Except FormatError String

/-- The formatter for the specifiers of this module. -/
def specFormatter : Formatter := fun spec x =>
  match Spec.read? spec.toList with
  | some s => .ok (String.ofList (s.write x))
  | none => .error (.unsupported spec)

end TextTemplate.Number
