import TextTemplate.Number.Reading
import TextTemplate.Yaml.Scalar

/-!
The tokens of a YAML text. Indentation becomes tokens of its own, which open and close blocks. That
a node is the key of a mapping shows only at the colon after it, so places where a key may have
started are remembered, and the tokens for the key are put there later.
-/
namespace TextTemplate.Yaml

inductive Token where
  | version (major minor : Nat)
  | tagHandle (handle meaning : String)
  | documentStart
  | documentEnd
  | blockSequence
  | blockMapping
  | blockEnd
  | openSequence
  | closeSequence
  | openMapping
  | closeMapping
  | item
  | comma
  | key
  | value
  | reference (name : String)
  | anchor (name : String)
  /-- A tag, whose handle is empty if the rest is the whole tag. -/
  | tag (handle rest : String)
  | scalar (s : Scalar)
  deriving DecidableEq, Repr

/-- An octet given by its number. -/
def readOctet? : List Char → Option (Nat × List Char)
  | '%' :: a :: b :: r => (Text.hexNumber? [a, b]).map fun n => (n, r)
  | _ => none

/-- How many octets a character has, by the first of them. -/
def octetCount? (n : Nat) : Option Nat :=
  if n < 0x80 then some 1
  else if n / 0x20 = 6 then some 2
  else if n / 0x10 = 14 then some 3
  else if n / 8 = 30 then some 4
  else none

def readContinuations? : Nat → List Char → Option (List Nat × List Char)
  | 0, s => some ([], s)
  | n + 1, s => do
    let (octet, s) ← readOctet? s
    if octet / 0x40 ≠ 2 then none
    let (octets, s) ← readContinuations? n s
    some (octet :: octets, s)

/-- The octets of one escaped character. -/
def readEscapedOctets? (s : List Char) : Option (List Nat × List Char) := do
  let (octet, s) ← readOctet? s
  let count ← octetCount? octet
  let (octets, s) ← readContinuations? (count - 1) s
  some (octet :: octets, s)

def isTagChar (verbatim : Bool) (c : Char) : Bool :=
  isWordChar c || ";/?:@&=+$.!~*'()".toList.contains c ||
    (verbatim && (c == ',' || c == '[' || c == ']'))

/-- The characters of a tag. Escaped octets stand as the characters of their numbers. -/
def readTagText? (verbatim : Bool) : (fuel : Nat) → List Char → Option (List Char × List Char)
  | 0, _ => none
  | fuel + 1, s =>
    match s with
    | [] => some ([], [])
    | c :: r =>
      if c = '%' then do
        let (octets, r) ← readEscapedOctets? s
        let (more, r) ← readTagText? verbatim fuel r
        some (octets.map Char.ofNat ++ more, r)
      else if isTagChar verbatim c then
        (readTagText? verbatim fuel r).map fun (more, r) => (c :: more, r)
      else some ([], s)

/-- The text of a tag at a place. -/
def tagText? (verbatim : Bool) (c : Cursor) : Option (String × Cursor) :=
  (readTagText? verbatim (c.rest.length + 1) c.rest).map fun (text, r) =>
    (String.ofList text, c.skip (c.rest.length - r.length))

/-- A handle: an exclamation mark, or a word between two of them. Otherwise the word is left. -/
def readHandle (c : Cursor) : String × Cursor :=
  let (word, d) := c.next.span isWordChar
  if d.startsWith "!" then (String.ofList ('!' :: word ++ ['!']), d.next) else ("!", c.next)

/-- A tag, from its exclamation mark on. -/
def readTag? (inFlow : Bool) (c : Cursor) : Option (Token × Cursor) := do
  let (token, c) ←
    if c.startsWith "!<" then do
      let (text, c) ← tagText? true (c.skip 2)
      if text.isEmpty || !c.startsWith ">" then none
      some (Token.tag "" text, c.next)
    else do
      let (handle, c) := readHandle c
      let (text, c) ← tagText? false c
      if handle = "!" then some (if text.isEmpty then .tag "" "!" else .tag "!" text, c)
      else if text.isEmpty then none
      else some (.tag handle text, c)
  if gapAhead c.rest || (inFlow && c.startsWith ",") then some (token, c) else none

/-- The name in an anchor or a reference, after its mark. -/
def readName? (c : Cursor) : Option (String × Cursor) :=
  let (word, c) := c.span isWordChar
  let ends := gapAhead c.rest || c.rest.head?.any ("?:,]\x7d%@\x60".toList.contains ·)
  if !word.isEmpty && ends then some (String.ofList word, c) else none

/-- A number of at most nine digits. -/
def readNumber? (c : Cursor) : Option (Nat × Cursor) :=
  let (digits, c) := c.span Char.isDigit
  if digits.isEmpty || digits.length > 9 then none
  else some (Number.natOfDigits digits, c)

/-- The numbers of a version, with a dot between them. -/
def readVersion? (c : Cursor) : Option (Token × Cursor) := do
  let (major, c) ← readNumber? (c.skipWhile isBlank)
  if !c.startsWith "." then none
  let (minor, c) ← readNumber? c.next
  some (.version major minor, c)

/-- A handle of tags and what it stands for. -/
def readTagHandle? (c : Cursor) : Option (Token × Cursor) := do
  let c := c.skipWhile isBlank
  if !c.startsWith "!" then none
  let (handle, c) := readHandle c
  if !(c.rest.head?.any isBlank) then none
  let (meaning, c) ← tagText? true (c.skipWhile isBlank)
  if meaning.isEmpty || !gapAhead c.rest then none
  some (.tagHandle handle meaning, c)

/-- A directive after its mark. -/
def readDirective? (c : Cursor) : Option (Token × Cursor) := do
  let (name, c) := c.span isWordChar
  if !gapAhead c.rest then none
  let (token, c) ←
    if name = "YAML".toList then readVersion? c
    else if name = "TAG".toList then readTagHandle? c
    else none
  some (token, ← c.endLine?)

/-- A place where a key may have started, and how many tokens came before it. -/
structure PendingKey where
  start : Cursor
  position : Nat
  /-- Whether only a key can stand there, since it is where the members of a block start. -/
  required : Bool
  deriving Repr

/-- A key must be followed by its colon on the same line and soon. -/
def PendingKey.isStale (key : PendingKey) (c : Cursor) : Bool :=
  key.start.line < c.line || key.start.index + 1024 < c.index

/-- The state of scanning: the place, the tokens so far with the last first, the columns of the open
blocks with the innermost first, and the pending keys here and in each collection in brackets
around. -/
structure Scan where
  place : Cursor
  tokens : List Token
  blocks : List Nat
  pending : Option PendingKey
  outer : List (Option PendingKey)
  /-- Whether a key that needs no mark may start here. -/
  keyAllowed : Bool
  deriving Repr

namespace Scan

def start (s : List Char) : Scan := ⟨.start s, [], [], none, [], true⟩

/-- Whether the place is inside brackets, where indentation has no meaning. -/
def inFlow (s : Scan) : Bool := !s.outer.isEmpty

/-- The first column that lies inside the innermost block. -/
def limit (s : Scan) : Nat :=
  match s.blocks with
  | [] => 0
  | column :: _ => column + 1

def push (token : Token) (s : Scan) : Scan := { s with tokens := token :: s.tokens }

/-- Puts tokens after the first `position` ones. -/
def insert (position : Nat) (tokens : List Token) (s : Scan) : Scan :=
  let later := s.tokens.length - position
  { s with tokens := s.tokens.take later ++ tokens.reverse ++ s.tokens.drop later }

/-- Gives up a key; one that is required cannot be given up. -/
def giveUp? (key : Option PendingKey) : Option (Option PendingKey) :=
  if key.any (·.required) then none else some none

def dropKey? (s : Scan) : Option Scan := (giveUp? s.pending).map fun k => { s with pending := k }

def dropStaleKey? (c : Cursor) (key : Option PendingKey) : Option (Option PendingKey) :=
  if key.any (·.isStale c) then giveUp? key else some key

/-- Gives up all keys whose colon can come no more. -/
def dropStaleKeys? (s : Scan) : Option Scan := do
  let pending ← dropStaleKey? s.place s.pending
  let outer ← s.outer.mapM (dropStaleKey? s.place)
  return { s with pending, outer }

/-- Remembers that a key may start here. -/
def saveKey? (s : Scan) : Option Scan :=
  if s.keyAllowed then do
    let s ← s.dropKey?
    let required := !s.inFlow && s.limit == s.place.column + 1
    return { s with pending := some ⟨s.place, s.tokens.length, required⟩ }
  else some s

/-- Whether a block may open at a column. -/
def opensBlock (column : Nat) (s : Scan) : Bool := !s.inFlow && s.limit ≤ column

/-- Opens a block here unless one is open at this column. -/
def openBlock (token : Token) (s : Scan) : Scan :=
  if s.opensBlock s.place.column then
    { s with blocks := s.place.column :: s.blocks }.push token
  else s

/-- Closes the blocks right of a column. -/
def closeBlocks (column : Nat) (s : Scan) : Scan :=
  if s.inFlow then s
  else
    let closed := s.blocks.takeWhile (column < ·)
    { s with
      blocks := s.blocks.drop closed.length
      tokens := closed.map (fun _ => Token.blockEnd) ++ s.tokens }

def closeAllBlocks (s : Scan) : Scan :=
  if s.inFlow then s
  else { s with blocks := [], tokens := s.blocks.map (fun _ => Token.blockEnd) ++ s.tokens }

/-- Skips blanks, comments and line ends. Tabs are skipped only where they cannot be indentation. -/
def skipGap : (fuel : Nat) → Scan → Scan
  | 0, s => s
  | fuel + 1, s =>
    let c := s.place.skipWhile fun x => x == ' ' || (x == '\t' && (s.inFlow || !s.keyAllowed))
    let c := if c.atComment then c.skipWhile (!isBreak ·) else c
    if c.rest.head?.any isBreak then
      skipGap fuel { s with place := c.next, keyAllowed := s.keyAllowed || !s.inFlow }
    else { s with place := c }

/-- Takes `n` characters as a token, after which a key may or may not start. -/
def take (n : Nat) (token : Token) (keyAllowed : Bool) (s : Scan) : Scan :=
  { s with place := s.place.skip n, keyAllowed }.push token

/-- Takes a token that was read, after which no key may start. -/
def accept? (read : Option (Token × Cursor)) (s : Scan) : Option Scan :=
  read.map fun (token, c) => { s with place := c, keyAllowed := false }.push token

/-- Ends all that is open before a token that stands outside of documents. -/
def leaveDocument? (s : Scan) : Option Scan := s.closeAllBlocks.dropKey?

def openFlow? (token : Token) (s : Scan) : Option Scan := do
  let s ← s.saveKey?
  return { s with pending := none, outer := s.pending :: s.outer }.take 1 token true

def closeFlow? (token : Token) (s : Scan) : Option Scan := do
  let s ← s.dropKey?
  let s := match s.outer with
    | [] => s
    | pending :: outer => { s with pending, outer }
  return s.take 1 token false

def comma? (s : Scan) : Option Scan := return (← s.dropKey?).take 1 .comma true

/-- The dash of a block sequence. -/
def item? (s : Scan) : Option Scan := do
  if !s.inFlow && !s.keyAllowed then none
  let s ← (s.openBlock .blockSequence).dropKey?
  return s.take 1 .item true

/-- The question mark of a key. -/
def key? (s : Scan) : Option Scan := do
  if !s.inFlow && !s.keyAllowed then none
  let s ← (s.openBlock .blockMapping).dropKey?
  return s.take 1 .key (!s.inFlow)

/-- The colon before a value. It makes a key of the node before it, if that can be one. -/
def value? (s : Scan) : Option Scan :=
  match s.pending with
  | some key =>
    let column := key.start.column
    let opens := s.opensBlock column
    let s := s.insert key.position (if opens then [.blockMapping, .key] else [.key])
    let blocks := if opens then column :: s.blocks else s.blocks
    some ({ s with pending := none, blocks }.take 1 .value false)
  | none =>
    if !s.inFlow && !s.keyAllowed then none
    else some ((s.openBlock .blockMapping).take 1 .value (!s.inFlow))

def blockScalar? (style : ScalarStyle) (s : Scan) : Option Scan := do
  let s ← s.dropKey?
  let (text, c) ← readBlock? (style == .folded) s.limit s.place.next
  return { s with place := c, keyAllowed := true }.push (.scalar ⟨style, String.ofList text⟩)

def quoted? (quote : Char) (s : Scan) : Option Scan := do
  let s ← s.saveKey?
  let (text, c) ← readQuoted? quote s.place.rest.length s.place.next
  return { s with place := c, keyAllowed := false }.push (.scalar ⟨.quoted, String.ofList text⟩)

/-- A plain scalar. If lines were left behind after it, a key may start. -/
def plain? (s : Scan) : Option Scan := do
  let s ← s.saveKey?
  let (text, broken, c) ← readPlain? s.inFlow s.limit (s.place.rest.length + 1) s.place
  return { s with place := c, keyAllowed := broken }.push (.scalar ⟨.plain, String.ofList text⟩)

/-- Reads the token that starts here. -/
def readToken? (s : Scan) : Option Scan :=
  let c := s.place
  match c.rest with
  | [] => none
  | x :: r =>
    let marks := s.inFlow || gapAhead r
    if c.column = 0 ∧ x = '%' then do (← s.leaveDocument?).accept? (readDirective? c.next)
    else if c.atMarker then
      s.leaveDocument?.map (·.take 3 (if x = '-' then .documentStart else .documentEnd) false)
    else if x = '[' then s.openFlow? .openSequence
    else if x = '\x7b' then s.openFlow? .openMapping
    else if x = ']' then s.closeFlow? .closeSequence
    else if x = '\x7d' then s.closeFlow? .closeMapping
    else if x = ',' then s.comma?
    else if x = '-' ∧ gapAhead r then s.item?
    else if x = '?' ∧ marks then s.key?
    else if x = ':' ∧ marks then s.value?
    else if x = '*' then do
      (← s.saveKey?).accept? ((readName? c.next).map fun (name, c) => (.reference name, c))
    else if x = '&' then do
      (← s.saveKey?).accept? ((readName? c.next).map fun (name, c) => (.anchor name, c))
    else if x = '!' then do (← s.saveKey?).accept? (readTag? s.inFlow c)
    else if x = '|' ∧ !s.inFlow then s.blockScalar? .literal
    else if x = '>' ∧ !s.inFlow then s.blockScalar? .folded
    else if x = '"' ∨ x = '\'' then s.quoted? x
    else if startsPlain s.inFlow c.rest then s.plain?
    else none

/-- Reads tokens to the end of the text, where all blocks are closed. -/
def readAll? : (fuel : Nat) → Scan → Option (List Token)
  | 0, _ => none
  | fuel + 1, s => do
    let s ← (s.skipGap (s.place.rest.length + 1)).dropStaleKeys?
    if s.place.rest.isEmpty then
      let s ← s.leaveDocument?
      return s.tokens.reverse
    else (s.closeBlocks s.place.column).readToken? >>= readAll? fuel

end Scan

/-- The tokens of a text. A byte order mark in front counts as a character of its line. -/
def tokens? (text : String) : Option (List Token) :=
  let s := text.toList
  if s.all isPrintable then
    let scan := Scan.start (unifyLines s)
    let place := if scan.place.startsWith "\uFEFF" then scan.place.next else scan.place
    { scan with place }.readAll? (s.length + 1)
  else none

end TextTemplate.Yaml
