import TextTemplate.Json.Reader
import TextTemplate.Number.Reading
import TextTemplate.Text.Cut

/-!
The characters of a TOML text and its scalars. Of a number or a date only the form is read. Each
reader takes the text to read and gives what it read and the rest.
-/
namespace TextTemplate.Toml

def isSpace (c : Char) : Bool := c == ' ' || c == '\t'

def skipSpace (s : List Char) : List Char := s.dropWhile isSpace

/-- Control characters other than the tab may stand nowhere but at line ends. -/
def isControl (c : Char) : Bool := (c.toNat < 0x20 && c != '\t') || c.toNat == 0x7F

def isBareKeyChar (c : Char) : Bool := c.isAlphanum || c == '_' || c == '-'

/-- Takes a line end off the front. -/
def readNewline? : List Char → Option (List Char)
  | '\n' :: r => some r
  | '\r' :: '\n' :: r => some r
  | _ => none

/-- Drops a comment up to the end of its line. -/
def skipComment : List Char → List Char
  | '#' :: r => r.dropWhile fun c => !isControl c
  | s => s

/-- The end of a line: blanks, a comment and a line end, or the end of the text. -/
def readLineEnd? (s : List Char) : Option (List Char) :=
  match skipComment (skipSpace s) with
  | [] => some []
  | r => readNewline? r

/-- Drops blanks, comments and line ends. -/
def skipLines : (fuel : Nat) → List Char → List Char
  | 0, s => s
  | fuel + 1, s =>
    let r := skipComment (skipSpace s)
    match readNewline? r with
    | some r => skipLines fuel r
    | none => r

/-- An escape after its backslash. -/
def readEscape? : List Char → Option (Char × List Char)
  | 'u' :: r =>
    if r.length < 4 then none else (Text.hexChar? (r.take 4)).map fun c => (c, r.drop 4)
  | 'U' :: r =>
    if r.length < 8 then none else (Text.hexChar? (r.take 8)).map fun c => (c, r.drop 8)
  | '/' :: _ => none
  | c :: r => (Json.simpleEscape? c).map fun c => (c, r)
  | [] => none

/-- A string in quotes on one line, after its opening quote. -/
def readQuoted? (quote : Char) (escapes : Bool) :
    (fuel : Nat) → List Char → Option (List Char × List Char)
  | 0, _ => none
  | _, [] => none
  | fuel + 1, c :: r =>
    if c = quote then some ([], r)
    else if isControl c then none
    else if escapes && c == '\\' then do
      let (d, r) ← readEscape? r
      let (cs, r) ← readQuoted? quote escapes fuel r
      some (d :: cs, r)
    else do
      let (cs, r) ← readQuoted? quote escapes fuel r
      some (c :: cs, r)

/-- The end of a string of several lines: three quotes, with at most two more before them. -/
def closeQuotes? (quote : Char) (s : List Char) : Option (List Char × List Char) :=
  let run := s.takeWhile (· == quote)
  if 3 ≤ run.length ∧ run.length ≤ 5 then
    some (List.replicate (run.length - 3) quote, s.drop run.length)
  else none

/-- A string in three quotes, after the opening ones. A backslash at the end of a line joins it with
the next text. -/
def readLong? (quote : Char) (escapes : Bool) :
    (fuel : Nat) → List Char → Option (List Char × List Char)
  | 0, _ => none
  | _, [] => none
  | fuel + 1, c :: r =>
    match closeQuotes? quote (c :: r) with
    | some done => some done
    | none =>
      if escapes && c == '\\' then
        match readNewline? (skipSpace r) with
        | some r =>
          readLong? quote escapes fuel (r.dropWhile fun c => isSpace c || c == '\n' || c == '\r')
        | none => do
          let (d, r) ← readEscape? r
          let (cs, r) ← readLong? quote escapes fuel r
          some (d :: cs, r)
      else
        match readNewline? (c :: r) with
        | some r => (readLong? quote escapes fuel r).map fun (cs, r) => ('\n' :: cs, r)
        | none =>
          if isControl c || (c == quote && (r.takeWhile (· == quote)).length ≥ 5) then none
          else (readLong? quote escapes fuel r).map fun (cs, r) => (c :: cs, r)

/-- A string of any of the four kinds. -/
def readString? (s : List Char) : Option (String × List Char) :=
  let read := match s with
    | '"' :: '"' :: '"' :: r => readLong? '"' true r.length ((readNewline? r).getD r)
    | '\'' :: '\'' :: '\'' :: r => readLong? '\'' false r.length ((readNewline? r).getD r)
    | '"' :: r => readQuoted? '"' true r.length r
    | '\'' :: r => readQuoted? '\'' false r.length r
    | _ => none
  read.map fun (cs, r) => (String.ofList cs, r)

/-- Digits with single underscores between them. -/
def isDigitRun (isDigit : Char → Bool) (s : List Char) : Bool :=
  (Text.splitAt '_' s).all fun part => !part.isEmpty && part.all isDigit

def digitsOnly (s : List Char) : List Char := s.filter (· != '_')

def isHexDigit (c : Char) : Bool := (Text.hexDigit? c).isSome

/-- A whole number in one of the other bases must be below 2^63. -/
def isBased (base : Nat) (isDigit : Char → Bool) (s : List Char) : Bool :=
  isDigitRun isDigit s &&
    (((digitsOnly s).filterMap Text.hexDigit?).foldl (fun n d => base * n + d) 0 < Nat.pow 2 63)

/-- Decimal digits without leading zeros. -/
def isDecimal (s : List Char) : Bool :=
  isDigitRun Char.isDigit s && (s.length == 1 || s.head? != some '0')

/-- A whole number that fits in 64 bits. -/
def isInteger (s : List Char) : Bool :=
  match s with
  | '0' :: 'x' :: r => isBased 16 isHexDigit r
  | '0' :: 'o' :: r => isBased 8 (fun c => '0' ≤ c && c ≤ '7') r
  | '0' :: 'b' :: r => isBased 2 (fun c => c == '0' || c == '1') r
  | _ =>
    let (negative, ds) := Number.readSign s
    isDecimal ds &&
      (Number.natOfDigits (digitsOnly ds) < Nat.pow 2 63 + if negative then 1 else 0)

/-- A number with a fraction or a power of ten, or no finite number by name. A positive one with
digits must not be above all doubles; a negative one may be below them. -/
def isFloat (s : List Char) : Bool :=
  let (negative, body) := Number.readSign s
  if body = "inf".toList ∨ body = "nan".toList then true
  else
    let whole := body.takeWhile fun c => c.isDigit || c == '_'
    let rest := body.drop whole.length
    let (fractionOk, rest) := match rest with
      | '.' :: r =>
        let fraction := r.takeWhile fun c => c.isDigit || c == '_'
        (isDigitRun Char.isDigit fraction, r.drop fraction.length)
      | r => (true, r)
    let powerOk := match rest with
      | [] => true
      | c :: r => (c == 'e' || c == 'E') && isDigitRun Char.isDigit (Number.readSign r).2
    isDecimal whole && fractionOk && powerOk && whole.length < body.length &&
      (negative || ((Number.read? (digitsOnly body)).map Float.isFinite).getD false)

/-- A number of exactly `width` digits within bounds. -/
def readField? (width low high : Nat) (s : List Char) : Option (Nat × List Char) :=
  let ds := s.take width
  let n := Number.natOfDigits ds
  if ds.length = width ∧ ds.all Char.isDigit ∧ low ≤ n ∧ n ≤ high then some (n, s.drop width)
  else none

def readSign? (c : Char) : List Char → Option (List Char)
  | d :: r => if c = d then some r else none
  | [] => none

def daysIn (year month : Nat) : Nat :=
  if month = 2 then
    if year % 4 = 0 ∧ (year % 100 ≠ 0 ∨ year % 400 = 0) then 29 else 28
  else if month = 4 ∨ month = 6 ∨ month = 9 ∨ month = 11 then 30
  else 31

def readDate? (s : List Char) : Option (List Char) := do
  let (year, s) ← readField? 4 0 9999 s
  let s ← readSign? '-' s
  let (month, s) ← readField? 2 1 12 s
  let s ← readSign? '-' s
  let (_, s) ← readField? 2 1 (daysIn year month) s
  some s

def readTime? (s : List Char) : Option (List Char) := do
  let (_, s) ← readField? 2 0 23 s
  let s ← readSign? ':' s
  let (_, s) ← readField? 2 0 59 s
  let s ← readSign? ':' s
  let (_, s) ← readField? 2 0 60 s
  match s with
  | '.' :: r => if (r.takeWhile Char.isDigit).isEmpty then none else some (r.dropWhile Char.isDigit)
  | s => some s

def readOffset? : List Char → Option (List Char)
  | [] => some []
  | 'Z' :: r => some r
  | 'z' :: r => some r
  | c :: r =>
    if c = '+' ∨ c = '-' then do
      let (_, s) ← readField? 2 0 23 r
      let s ← readSign? ':' s
      let (_, s) ← readField? 2 0 59 s
      some s
    else none

/-- A date, a time of day, or both with an optional offset. -/
def isMoment (s : List Char) : Bool :=
  match readDate? s with
  | some [] => true
  | some (c :: r) =>
    (c == 'T' || c == 't' || c == ' ') && ((readTime? r).bind readOffset?) == some []
  | none => readTime? s == some []

def isScalarChar (c : Char) : Bool :=
  c.isAlphanum || c == '_' || c == '-' || c == '+' || c == '.' || c == ':'

/-- The text of a number, a date or a word; one blank may stand between a date and a time. -/
def spanScalar (s : List Char) : List Char × List Char :=
  let head := s.takeWhile isScalarChar
  let rest := s.drop head.length
  match rest with
  | ' ' :: d :: r =>
    if readDate? head == some [] ∧ d.isDigit then
      let tail := (d :: r).takeWhile isScalarChar
      (head ++ ' ' :: tail, (d :: r).drop tail.length)
    else (head, rest)
  | _ => (head, rest)

end TextTemplate.Toml
