import TextTemplate.Json
import TextTemplate.Number.Reading
import TextTemplate.Text.Characters

/-!
Reading JSON text. Each reader takes the text to read and gives what it read and the rest. A strict
reader refuses half of a surrogate pair and a number beyond the range of doubles; a lenient one only
checks the shape, which is all that is asked of a value nobody looks at.
-/
namespace TextTemplate.Json

def isSpace (c : Char) : Bool := c == ' ' || c == '\n' || c == '\t' || c == '\r'

def skipSpace (s : List Char) : List Char := s.dropWhile isSpace

def simpleEscape? : Char → Option Char
  | '"' => some '"'
  | '\\' => some '\\'
  | '/' => some '/'
  | 'b' => some '\x08'
  | 'f' => some '\x0c'
  | 'n' => some '\n'
  | 'r' => some '\r'
  | 't' => some '\t'
  | _ => none

def isHighHalf (unit : Nat) : Bool := 0xD800 ≤ unit && unit ≤ 0xDBFF

def isLowHalf (unit : Nat) : Bool := 0xDC00 ≤ unit && unit ≤ 0xDFFF

/-- Code units in the place of characters: an escape gives a unit, any other character itself. -/
inductive Unit16 where
  | char (c : Char)
  | unit (n : Nat)

/-- The characters and escapes of a string up to its closing quote, and what follows it. -/
def readUnits : List Char → Option (List Unit16 × List Char)
  | '"' :: r => some ([], r)
  | '\\' :: 'u' :: a :: b :: c :: d :: r => do
    let n ← Text.hexNumber? [a, b, c, d]
    let (units, rest) ← readUnits r
    some (.unit n :: units, rest)
  | '\\' :: e :: r => do
    let c ← simpleEscape? e
    let (units, rest) ← readUnits r
    some (.char c :: units, rest)
  | c :: r =>
    if c.toNat < 0x20 ∨ c = '\\' then none
    else (readUnits r).map fun (units, rest) => (.char c :: units, rest)
  | [] => none

/-- Joins the halves of surrogate pairs. -/
def joinUnits (strict : Bool) : List Unit16 → Option (List Char)
  | [] => some []
  | .char c :: r => (joinUnits strict r).map (c :: ·)
  | .unit n :: .unit m :: r =>
    if isHighHalf n && isLowHalf m then
      (joinUnits strict r).map (Char.ofNat (0x10000 + (n - 0xD800) * 0x400 + (m - 0xDC00)) :: ·)
    else if isHighHalf n || isLowHalf n then
      if strict then none else (joinUnits strict (.unit m :: r)).map ('\uFFFD' :: ·)
    else (joinUnits strict (.unit m :: r)).map (Char.ofNat n :: ·)
  | .unit n :: r =>
    if isHighHalf n || isLowHalf n then
      if strict then none else (joinUnits strict r).map ('\uFFFD' :: ·)
    else (joinUnits strict r).map (Char.ofNat n :: ·)

/-- A string whose opening quote has been read. -/
def readString (strict : Bool) (s : List Char) : Option (String × List Char) := do
  let (units, rest) ← readUnits s
  let cs ← joinUnits strict units
  some (String.ofList cs, rest)

def isNumberChar (c : Char) : Bool :=
  c.isDigit || c == '.' || c == 'e' || c == 'E' || c == '+' || c == '-'

/-- Whether a number has the shape JSON asks for: no leading zeros, and digits after a point. -/
def isNumberShape (s : List Char) : Bool :=
  let (whole, rest) := Number.spanDigits (if s.head? = some '-' then s.drop 1 else s)
  let wholeOk := !whole.isEmpty && (whole.length == 1 || whole.head? != some '0')
  let (fractionOk, rest) := match rest with
    | '.' :: r =>
      let (fraction, r) := Number.spanDigits r
      (!fraction.isEmpty, r)
    | r => (true, r)
  wholeOk && fractionOk && (Number.readPower? rest).isSome

def readNumber (strict : Bool) (s : List Char) : Option (Float × List Char) := do
  let text := s.takeWhile isNumberChar
  if isNumberShape text then
    let x ← Number.read? text
    if strict && !x.isFinite then none else some (x, s.dropWhile isNumberChar)
  else none

/-- Takes a given word off the front. -/
def readWord (word : String) (s : List Char) : Option (List Char) :=
  if word.toList.isPrefixOf s then some (s.drop word.length) else none

mutual

/-- A value and the rest. `fuel` bounds the depth of brackets and the number of their items. -/
def readValue (strict : Bool) : (fuel : Nat) → List Char → Option (Json × List Char)
  | 0, _ => none
  | fuel + 1, s =>
    match skipSpace s with
    | '"' :: r => (readString strict r).map fun (t, r) => (string t, r)
    | '[' :: r =>
      match skipSpace r with
      | ']' :: r => some (array [], r)
      | r => (readItems strict fuel r).map fun (items, r) => (array items, r)
    | '\x7b' :: r =>
      match skipSpace r with
      | '\x7d' :: r => some (object [], r)
      | r => (readMembers strict (fun _ => strict) fuel r).map fun (ms, r) => (ofMembers ms, r)
    | 't' :: r => (readWord "rue" r).map fun r => (bool true, r)
    | 'f' :: r => (readWord "alse" r).map fun r => (bool false, r)
    | 'n' :: r => (readWord "ull" r).map fun r => (null, r)
    | r => (readNumber strict r).map fun (x, r) => (number x, r)

/-- Items up to the closing bracket. -/
def readItems (strict : Bool) : (fuel : Nat) → List Char → Option (List Json × List Char)
  | 0, _ => none
  | fuel + 1, s => do
    let (item, r) ← readValue strict fuel s
    match skipSpace r with
    | ',' :: r =>
      let (items, r) ← readItems strict fuel r
      some (item :: items, r)
    | ']' :: r => some ([item], r)
    | _ => none

/-- Members up to the closing bracket, repeated names included; how strictly a value is read may
depend on its name. -/
def readMembers (strictKeys : Bool) (strictValue : String → Bool) :
    (fuel : Nat) → List Char → Option (List (String × Json) × List Char)
  | 0, _ => none
  | fuel + 1, s =>
    match skipSpace s with
    | '"' :: r => do
      let (key, r) ← readString strictKeys r
      match skipSpace r with
      | ':' :: r =>
        let (v, r) ← readValue (strictValue key) fuel r
        match skipSpace r with
        | ',' :: r =>
          let (members, r) ← readMembers strictKeys strictValue fuel r
          some ((key, v) :: members, r)
        | '\x7d' :: r => some ([(key, v)], r)
        | _ => none
      | _ => none
    | _ => none

end

/-- A whole text that holds one value and nothing else. -/
def parse? (text : String) : Option Json :=
  let s := text.toList
  match readValue true (s.length + 1) s with
  | some (v, r) => if (skipSpace r).isEmpty then some v else none
  | none => none

/-- The members of a whole text that holds one object, repeated names included. Names are read
strictly, and so are the values whose names `strictValue` picks. -/
def parseMembers? (strictValue : String → Bool) (text : String) : Option (List (String × Json)) :=
  let s := text.toList
  match skipSpace s with
  | '\x7b' :: r =>
    match skipSpace r with
    | '\x7d' :: r => if (skipSpace r).isEmpty then some [] else none
    | r =>
      match readMembers true strictValue s.length r with
      | some (members, r) => if (skipSpace r).isEmpty then some members else none
      | none => none
  | _ => none

end TextTemplate.Json
