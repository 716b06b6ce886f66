import TextTemplate.Text.Characters

/-!
The characters of a YAML text and a place in it. Indentation is told by columns, so a place knows
its line and column besides the text that follows.
-/
namespace TextTemplate.Yaml

def isBlank (c : Char) : Bool := c == ' ' || c == '\t'

/-- The characters that end a line, once all line ends of other systems are line feeds. -/
def isBreak (c : Char) : Bool := c == '\n' || c == '\u2028' || c == '\u2029'

def isGap (c : Char) : Bool := isBlank c || isBreak c

/-- The characters of anchors, tag handles and directives. -/
def isWordChar (c : Char) : Bool := c.isAlphanum || c == '_' || c == '-'

/-- The characters that structure collections in brackets. -/
def isFlowMark (c : Char) : Bool := c == ',' || c == '[' || c == ']' || c == '\x7b' || c == '\x7d'

/-- The characters a text may hold: no control characters but tabs and line ends. -/
def isPrintable (c : Char) : Bool :=
  c == '\t' || c == '\n' || c == '\r' || c == '\u0085' || (' ' ≤ c && c ≤ '~') ||
    ('\u00A0' ≤ c && c ≤ '\uFFFD') || '\uFFFF' < c

/-- Writes the line ends of other systems as line feeds. -/
def unifyLines : List Char → List Char
  | [] => []
  | '\r' :: '\n' :: r => '\n' :: unifyLines r
  | '\r' :: r => '\n' :: unifyLines r
  | '\u0085' :: r => '\n' :: unifyLines r
  | c :: r => c :: unifyLines r

/-- Whether a blank, a line end or the end of the text comes next. -/
def gapAhead : List Char → Bool
  | [] => true
  | c :: _ => isGap c

/-- A place in a text: what follows it, how many characters come before it, and its line and column.
-/
structure Cursor where
  rest : List Char
  index : Nat
  line : Nat
  column : Nat
  deriving Repr

namespace Cursor

def start (s : List Char) : Cursor := ⟨s, 0, 0, 0⟩

/-- The place after the next character. -/
def next (c : Cursor) : Cursor :=
  match c.rest with
  | [] => c
  | x :: r =>
    if isBreak x then ⟨r, c.index + 1, c.line + 1, 0⟩ else ⟨r, c.index + 1, c.line, c.column + 1⟩

def skip : Nat → Cursor → Cursor
  | 0, c => c
  | n + 1, c => skip n c.next

/-- The characters up to the first that fails a test, and the place after them. -/
def span (test : Char → Bool) (c : Cursor) : List Char × Cursor :=
  let taken := c.rest.takeWhile test
  (taken, c.skip taken.length)

def skipWhile (test : Char → Bool) (c : Cursor) : Cursor := (c.span test).2

def startsWith (s : String) (c : Cursor) : Bool := s.toList.isPrefixOf c.rest

/-- Whether a line that starts or ends a document comes next. -/
def atMarker (c : Cursor) : Bool :=
  c.column == 0 && (c.startsWith "---" || c.startsWith "...") && gapAhead (c.rest.drop 3)

def atComment (c : Cursor) : Bool := c.rest.head? == some '#'

/-- Ends a line after blanks and a comment. Nothing else may stand there. -/
def endLine? (c : Cursor) : Option Cursor :=
  let c := c.skipWhile isBlank
  let c := if c.atComment then c.skipWhile (!isBreak ·) else c
  if gapAhead c.rest then some c.next else none

end Cursor

end TextTemplate.Yaml
