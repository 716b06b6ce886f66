import TextTemplate.Toml.Scalar
import TextTemplate.Toml.Table

/-!
Reading settings from TOML text. The whole document has to be well formed; of its values only
booleans, strings and arrays at the top can be settings.
-/
namespace TextTemplate.Toml

/-- A truth value, a number or a date. -/
def readScalar? (s : List Char) : Option (Entry × List Char) :=
  let (word, r) := spanScalar s
  if word = "true".toList then some (.flag true, r)
  else if word = "false".toList then some (.flag false, r)
  else if isInteger word || isFloat word || isMoment word then some (.other, r)
  else none

def readSimpleKey? (s : List Char) : Option (String × List Char) :=
  match s with
  | '"' :: r => (readQuoted? '"' true r.length r).map fun (cs, r) => (String.ofList cs, r)
  | '\'' :: r => (readQuoted? '\'' false r.length r).map fun (cs, r) => (String.ofList cs, r)
  | s =>
    let word := s.takeWhile isBareKeyChar
    if word.isEmpty then none else some (String.ofList word, s.drop word.length)

/-- How deep arrays and tables may nest, and how many names a dotted key may have. -/
def maxDepth : Nat := 79

/-- The names of a dotted key before the last one, and the last. -/
def readNames? : (fuel : Nat) → List Char → Option (List String × String × List Char)
  | 0, _ => none
  | fuel + 1, s => do
    let (name, r) ← readSimpleKey? (skipSpace s)
    match skipSpace r with
    | '.' :: r =>
      let (path, last, r) ← readNames? fuel r
      some (name :: path, last, r)
    | r => some ([], name, r)

/-- A dotted key: the names before the last one, and the last. -/
def readKey? (s : List Char) : Option (List String × String × List Char) := do
  let (path, last, r) ← readNames? s.length s
  if path.length < maxDepth then some (path, last, r) else none

mutual

/-- A value; arrays and tables in it may nest `depth` deep. -/
def readValue? (depth : Nat) : (fuel : Nat) → List Char → Option (Entry × List Char)
  | 0, _ => none
  | fuel + 1, s =>
    match s with
    | '[' :: r =>
      if depth = 0 then none
      else
        (readArray? (depth - 1) fuel (skipLines r.length r)).map fun (items, r) => (.list items, r)
    | '\x7b' :: r =>
      if depth = 0 then none
      else
        match skipSpace r with
        | '\x7d' :: r => some (.other, r)
        | r => (readInline? (depth - 1) fuel [] r).map fun r => (.other, r)
    | c :: _ =>
      if c = '"' ∨ c = '\'' then (readString? s).map fun (t, r) => (.text t, r)
      else readScalar? s
    | [] => none

/-- Items of an array up to its closing bracket; a comma may follow the last one. -/
def readArray? (depth : Nat) : (fuel : Nat) → List Char → Option (List Entry × List Char)
  | 0, _ => none
  | fuel + 1, s =>
    match s with
    | ']' :: r => some ([], r)
    | s => do
      let (item, r) ← readValue? depth fuel s
      match skipLines r.length r with
      | ',' :: r =>
        let (items, r) ← readArray? depth fuel (skipLines r.length r)
        some (item :: items, r)
      | ']' :: r => some ([item], r)
      | _ => none

/-- The members of a table in braces, on one line and with no comma at the end. -/
def readInline? (depth : Nat) : (fuel : Nat) → List (String × Item) → List Char → Option (List Char)
  | 0, _, _ => none
  | fuel + 1, items, s => do
    let (path, name, r) ← readKey? s
    match r with
    | '=' :: r =>
      let (e, r) ← readValue? depth fuel (skipSpace r)
      let items ← addValue? path name e items
      match skipSpace r with
      | ',' :: r => readInline? depth fuel items r
      | '\x7d' :: r => some r
      | _ => none
    | _ => none

end

/-- Reads the lines of a document into a table; `here` is the table the last header named. -/
def readLines? : (fuel : Nat) → (here : List String) → List (String × Item) → List Char →
    Option (List (String × Item))
  | 0, _, _, _ => none
  | fuel + 1, here, items, s =>
    match skipLines s.length s with
    | [] => some items
    | '[' :: '[' :: r => do
      let (path, name, r) ← readKey? r
      match r with
      | ']' :: ']' :: r =>
        let items ← openArray? path name items
        readLines? fuel (path ++ [name]) items (← readLineEnd? r)
      | _ => none
    | '[' :: r => do
      let (path, name, r) ← readKey? r
      match r with
      | ']' :: r =>
        let items ← openTable? path name items
        readLines? fuel (path ++ [name]) items (← readLineEnd? r)
      | _ => none
    | s => do
      let (path, name, r) ← readKey? s
      match r with
      | '=' :: r =>
        let (e, r) ← readValue? maxDepth (r.length + 1) (skipSpace r)
        let items ← addUnder? here path name e items
        readLines? fuel here items (← readLineEnd? r)
      | _ => none

def Item.entry : Item → Entry
  | .value e => e
  | _ => .other

/-- The top-level names of a document and what can be read from them. -/
def parse? (text : String) : Option (List (String × Entry)) := do
  let s := match text.toList with
    | '\uFEFF' :: r => r
    | s => s
  let items ← readLines? (s.length + 1) [] [] s
  return items.map fun (key, item) => (key, item.entry)

end TextTemplate.Toml

namespace TextTemplate

/-- Reads a TOML text of settings; delimiters may have more than two parts there. -/
def Layer.ofTomlText? (text : String) : Option Layer :=
  (Toml.parse? text).bind (Layer.ofNamed? ⟨true, true⟩)

end TextTemplate
