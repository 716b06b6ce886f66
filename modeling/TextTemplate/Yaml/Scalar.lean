import TextTemplate.Yaml.Cursor

/-!
Scalars: plain, in quotes, and in blocks. What stands between two words of a scalar is a gap of
blanks and line ends; within a line it is kept, over lines it is folded.
-/
namespace TextTemplate.Yaml

/-- How a scalar is written, as far as it bears on what it can be read as. -/
inductive ScalarStyle where
  | plain
  | quoted
  | literal
  | folded
  deriving DecidableEq, Repr

structure Scalar where
  style : ScalarStyle
  text : String
  deriving DecidableEq, Repr

/-- The text of a gap inside a scalar: a line feed becomes a blank, or gives way to those after it.
-/
def foldGap (gap : List Char) : List Char :=
  match gap.filter isBreak with
  | [] => gap
  | ['\n'] => [' ']
  | '\n' :: more => more
  | breaks => breaks

def escapedChar? : Char → Option Char
  | '0' => some '\x00'
  | 'a' => some '\x07'
  | 'b' => some '\x08'
  | 't' => some '\t'
  | '\t' => some '\t'
  | 'n' => some '\n'
  | 'v' => some '\x0b'
  | 'f' => some '\x0c'
  | 'r' => some '\r'
  | 'e' => some '\x1b'
  | ' ' => some ' '
  | '"' => some '"'
  | '/' => some '/'
  | '\\' => some '\\'
  | 'N' => some '\u0085'
  | '_' => some '\u00A0'
  | 'L' => some '\u2028'
  | 'P' => some '\u2029'
  | _ => none

/-- How many hexadecimal digits follow an escape that gives a code. -/
def codeLength? : Char → Option Nat
  | 'x' => some 2
  | 'u' => some 4
  | 'U' => some 8
  | _ => none

/-- The text of an escape, from its backslash on. One at the end of a line joins it with the next
text, over which only further line ends are kept. -/
def readEscape? (c : Cursor) : Option (List Char × Cursor) :=
  match c.rest.drop 1 with
  | [] => none
  | x :: r =>
    if isBreak x then
      let (gap, c) := (c.skip 2).span isGap
      some (gap.filter isBreak, c)
    else
      match codeLength? x with
      | some n =>
        if r.length < n then none
        else (Text.hexChar? (r.take n)).map fun d => ([d], c.skip (n + 2))
      | none => (escapedChar? x).map fun d => ([d], c.skip 2)

/-- The text of a scalar in quotes, after the opening one. In double quotes there are escapes; a
single quote is written twice. No line inside may look like the start or the end of a document. -/
def readQuoted? (quote : Char) : (fuel : Nat) → Cursor → Option (List Char × Cursor)
  | 0, _ => none
  | fuel + 1, c =>
    if c.atMarker then none
    else
      match c.rest with
      | [] => none
      | x :: r =>
        if isGap x then do
          let (gap, c) := c.span isGap
          let (more, c) ← readQuoted? quote fuel c
          some (foldGap gap ++ more, c)
        else if x == quote then
          if quote == '\'' && r.head? == some quote then do
            let (more, c) ← readQuoted? quote fuel (c.skip 2)
            some (quote :: more, c)
          else some ([], c.next)
        else if quote == '"' && x == '\\' then do
          let (text, c) ← readEscape? c
          let (more, c) ← readQuoted? quote fuel c
          some (text ++ more, c)
        else do
          let (more, c) ← readQuoted? quote fuel c.next
          some (x :: more, c)

/-- Whether a plain scalar can start here. -/
def startsPlain (inFlow : Bool) : List Char → Bool
  | [] => false
  | c :: r =>
    if c = '-' then !(r.head?.any isBlank)
    else if c = '?' ∨ c = ':' then !inFlow && !gapAhead r
    else !(isGap c || isFlowMark c || "#&*!|>'\"%@\x60".toList.contains c)

/-- Whether a plain scalar ends before this text: at a colon and a blank, and in brackets at their
marks. -/
def endsPlain (inFlow : Bool) : List Char → Bool
  | [] => true
  | c :: r => isGap c || (c == ':' && gapAhead r) || (inFlow && isFlowMark c)

/-- The characters of a plain scalar up to the next gap. In brackets no colon may touch a mark. -/
def readWord? (inFlow : Bool) : List Char → Option (List Char)
  | [] => some []
  | c :: r =>
    if endsPlain inFlow (c :: r) then some []
    else if inFlow && c == ':' && r.head?.any (fun d => d == '?' || isFlowMark d) then none
    else (readWord? inFlow r).map (c :: ·)

/-- Whether a line of a gap has a tab before `limit`; `column` is none on the line the gap starts
in. -/
def hasEarlyTab (limit : Nat) : (column : Option Nat) → List Char → Bool
  | _, [] => false
  | column, c :: r =>
    if isBreak c then hasEarlyTab limit (some 0) r
    else (c == '\t' && column.any (· < limit)) || hasEarlyTab limit (column.map (· + 1)) r

/-- The text of a plain scalar, whether the gap after it ends a line, and the place after that gap.
In a block it goes on over lines that start at column `limit` or right of it. -/
def readPlain? (inFlow : Bool) (limit : Nat) :
    (fuel : Nat) → Cursor → Option (List Char × Bool × Cursor)
  | 0, _ => none
  | fuel + 1, c => do
    let word ← readWord? inFlow c.rest
    let (gap, c) := (c.skip word.length).span isGap
    if hasEarlyTab limit none gap then none
    if gap.isEmpty || c.atMarker || c.atComment || endsPlain inFlow c.rest ||
        (!inFlow && c.column < limit) then
      some (word, gap.any isBreak, c)
    else
      let (more, broken, c) ← readPlain? inFlow limit fuel c
      some (word ++ foldGap gap ++ more, broken, c)

/-- What becomes of the line ends after the text of a block scalar. -/
inductive Chomping where
  | strip
  | clip
  | keep
  deriving DecidableEq, Repr

def Chomping.ofChar? : Char → Option Chomping
  | '-' => some strip
  | '+' => some keep
  | _ => none

/-- An indentation given by one digit. -/
def indentDigit? (c : Char) : Option Nat :=
  if '1' ≤ c ∧ c ≤ '9' then some (c.toNat - 48) else none

/-- The two indicators that can follow the mark of a block scalar, in either order. -/
def readHeader (c : Cursor) : Chomping × Option Nat × Cursor :=
  match c.rest.head?.bind Chomping.ofChar? with
  | some chomping =>
    match c.next.rest.head?.bind indentDigit? with
    | some n => (chomping, some n, c.skip 2)
    | none => (chomping, none, c.next)
  | none =>
    match c.rest.head?.bind indentDigit? with
    | some n =>
      match c.next.rest.head?.bind Chomping.ofChar? with
      | some chomping => (chomping, some n, c.skip 2)
      | none => (.clip, some n, c.next)
    | none => (.clip, none, c)

/-- The line ends before the next line with text, the widest indentation met, and the place where
that text starts, or where its indentation exceeds `indent`. -/
def readEmptyLines? (indent : Option Nat) :
    (fuel : Nat) → Cursor → Option (List Char × Nat × Cursor)
  | 0, _ => none
  | fuel + 1, c =>
    let spaces := (c.rest.takeWhile (· == ' ')).length
    let c := c.skip ((indent.map fun n => min spaces (n - c.column)).getD spaces)
    match c.rest with
    | [] => some ([], c.column, c)
    | x :: _ =>
      if x == '\t' && indent.all (c.column < ·) then none
      else if isBreak x then do
        let (breaks, widest, d) ← readEmptyLines? indent fuel c.next
        some (x :: breaks, max c.column widest, d)
      else some ([], c.column, c)

/-- The lines of a block scalar from one that starts at column `indent`. Before it came the end of
another line and empty lines. They are folded unless `fixed` is set, which it is after a line that
starts with a blank and before the first line, or this line starts with a blank. -/
def readBlockLines? (folded : Bool) (chomping : Chomping) (indent : Nat) :
    (fuel : Nat) → (fixed : Bool) → (ending breaks : List Char) → Cursor →
      Option (List Char × Cursor)
  | 0, _, _, _, _ => none
  | fuel + 1, fixed, ending, breaks, c =>
    if c.column == indent && !c.rest.isEmpty then do
      let blank := c.rest.head?.any isBlank
      let between := ending ++ breaks
      let joint := if folded && !fixed && !blank then foldGap between else between
      let (text, c) := c.span (!isBreak ·)
      let (further, _, d) ← readEmptyLines? (some indent) (c.rest.length + 1) c.next
      let (more, d) ← readBlockLines? folded chomping indent fuel blank (c.rest.take 1) further d
      some (joint ++ text ++ more, d)
    else
      match chomping with
      | .strip => some ([], c)
      | .clip => some (ending, c)
      | .keep => some (ending ++ breaks, c)

/-- The text of a block scalar after its mark. Its lines are indented by what the header says,
counted from the block around it, or as far as the first of them; `limit` is the least indentation.
-/
def readBlock? (folded : Bool) (limit : Nat) (c : Cursor) : Option (List Char × Cursor) := do
  let (chomping, given, c) := readHeader c
  let c ← c.endLine?
  let given := given.map fun n => limit - 1 + n
  let (breaks, widest, d) ← readEmptyLines? given (c.rest.length + 1) c
  let indent := given.getD (max widest (max limit 1))
  readBlockLines? folded chomping indent (d.rest.length + 1) true [] breaks d

end TextTemplate.Yaml
