import TextTemplate.Text.CaseTable

/-!
Upper and lower case of whole texts, with the full mapping: a character may become several. The
capital sigma is the one letter whose lower-case form depends on where in the word it stands.

Capitals at word starts. A word starts at the beginning of the text and after every character that
is no ASCII letter, digit or underscore; only an ASCII small letter there is changed, and the
possessive `'s` keeps its letter.
-/
namespace TextTemplate.Text

/-- The mapping of one character: its expansion if it has one, else its shifted form. -/
def mapCase (runs : List CaseRun) (expansions : List (Nat × List Nat)) (c : Char) : List Char :=
  match expansions.lookup c.toNat with
  | some codes => codes.map Char.ofNat
  | none =>
    match runs.find? (·.has c.toNat) with
    | some run => [Char.ofNat (c.toNat + run.shift).toNat]
    | none => [c]

def upperChar (c : Char) : List Char := mapCase upperRuns upperExpansions c

def lowerChar (c : Char) : List Char := mapCase lowerRuns lowerExpansions c

def inRanges (ranges : List (Nat × Nat)) (c : Char) : Bool :=
  ranges.any fun (first, last) => first ≤ c.toNat && c.toNat ≤ last

def isCased (c : Char) : Bool := inRanges casedRanges c

def isCaseIgnorable (c : Char) : Bool := inRanges caseIgnorableRanges c

/-- Whether a cased letter comes next, skipping marks and word-internal punctuation. -/
def startsCased (s : List Char) : Bool :=
  match s.dropWhile isCaseIgnorable with
  | c :: _ => isCased c
  | [] => false

def upper (s : List Char) : List Char := s.flatMap upperChar

/-- Lower-cases a text that stands after `before` (reversed). A capital sigma that ends a word
takes its final form. -/
def lowerFrom (before : List Char) : List Char → List Char
  | [] => []
  | c :: r =>
    (if c = 'Σ' then [if startsCased before && !startsCased r then 'ς' else 'σ']
      else lowerChar c) ++ lowerFrom (c :: before) r

def lower (s : List Char) : List Char := lowerFrom [] s

def isWordChar (c : Char) : Bool := c.isAlphanum || c == '_'

/-- Walks a text past its first character. The character before a changed letter is upper-cased
along with it. -/
def capitalizeRest : List Char → List Char
  | [] => []
  | [c] => [c]
  | p :: c :: r =>
    if isWordChar p || !c.isLower then p :: capitalizeRest (c :: r)
    else if p = '\'' ∧ c = 's' then p :: c :: capitalizeRest r
    else upperChar p ++ upperChar c ++ capitalizeRest r

def capitalizeChars : List Char → List Char
  | [] => []
  | c :: r => if c.isLower then upperChar c ++ capitalizeRest r else capitalizeRest (c :: r)

def capitalize (text : String) : String := String.ofList (capitalizeChars text.toList)

end TextTemplate.Text
