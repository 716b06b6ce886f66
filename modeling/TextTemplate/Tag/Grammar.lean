import TextTemplate.Error
import TextTemplate.Tag
import TextTemplate.Text.Characters

/-!
The grammar of a tag's content: a directive, a dot for a key seen from the enclosing scope, the key,
`::` and a format, and after each `->` a function with a format of its own. A semicolon at the end
of a key or of its format asks for escaping.
-/
namespace TextTemplate

inductive TagFault where
  | emptyKey
  | emptyHead
  | badLink
  | badFormat
  | manyFormats
  | linkedPartial
  | formattedSection
  | escapedSection
  deriving DecidableEq, Repr

namespace TagFault

def message : TagFault → String
  | emptyKey => "empty evaluation"
  | emptyHead => "malformatted function context directive"
  | badLink => "malformatted pass-to-function"
  | badFormat => "malformatted format directive"
  | manyFormats => "multiple format directives"
  | linkedPartial => "partial tag cannot be paired with pass-to-function directive"
  | formattedSection => "format passed to section tag"
  | escapedSection => "escape directive passed to section tag"

def inTag (fault : TagFault) (raw : String) : TemplateError := .invalidTag fault.message raw

end TagFault

/-- A key with its format and escape mark, as the text between two arrows has them. -/
structure Term where
  key : List Char
  format : Option (List Char)
  escape : Bool
  deriving DecidableEq, Repr

namespace Term

/-- The text before a closing semicolon. -/
def dropMark? (s : List Char) : Option (List Char) :=
  (Text.dropSuffix? Directive.escape.symbol.toList s).map Text.trimEnd

/-- Takes the escape marks off a key and its format. -/
def ofParts (key : List Char) (format : Option (List Char)) : Except TagFault Term :=
  let marked := dropMark? key
  let key := marked.getD key
  match format with
  | none => .ok ⟨key, none, marked.isSome⟩
  | some f =>
    match dropMark? f with
    | none => .ok ⟨key, some f, marked.isSome⟩
    | some [] => .error .badFormat
    | some f => .ok ⟨key, some f, true⟩

/-- Cuts a term at its format mark. Only a key seen from the enclosing scope may be empty. -/
def parse (inContext : Bool) (text : List Char) : Except TagFault Term :=
  match Text.splitPair ':' ':' text with
  | [key] => ofParts (Text.trim key) none
  | [key, format] =>
    let key := Text.trim key
    let format := Text.trim format
    if format.isEmpty || format.head? = some ':' || (key.isEmpty && !inContext) then
      .error .badFormat
    else ofParts key (some format)
  | _ => .error .manyFormats

/-- A term whose key is not empty, unless it is seen from the enclosing scope. -/
def parseKeyed (inContext : Bool) (text : List Char) : Except TagFault Term := do
  let term ← parse inContext text
  if term.key.isEmpty && !inContext then .error .emptyKey else .ok term

end Term

/-- Takes the mark of a key seen from the enclosing scope off a text. -/
def readInContext : List Char → Bool × List Char
  | '.' :: r => (true, r)
  | s => (false, s)

namespace Link

def ofTerm (inContext : Bool) (term : Term) : Link where
  key := Key.ofPath (String.ofList term.key) inContext
  format := term.format.map String.ofList
  escape := term.escape

def parseChars (name : List Char) : Except TagFault Link :=
  if name.isEmpty || name.head? = some '-' || name.head? = some '>' then .error .badLink
  else
    let (inContext, text) := readInContext name
    (Term.parseKeyed inContext text).map (ofTerm inContext)

/-- A link by its text; `raw` is the tag it belongs to. -/
def parse (name raw : String) : Except TemplateError Link :=
  (parseChars name.toList).mapError (·.inTag raw)

end Link

namespace Tag

/-- A tag that stands for nothing; its text is kept, but it is no path. -/
def comment (raw : String) (text : List Char) : Tag where
  raw := raw
  directive := some .comment
  key := ⟨String.ofList text, [], false⟩
  links := []
  format := none
  escape := false

/-- Splits a tag at its arrows: the term of the key, and the links. -/
def parseTerms (inContext : Bool) (text : List Char) : Except TagFault (Term × List Link) :=
  match Text.splitPair '-' '>' text with
  | head :: names@(_ :: _) => do
    if (Text.trim head).isEmpty && !inContext then throw .emptyHead
    let links ← names.mapM fun name => Link.parseChars (Text.trim name)
    let term ← Term.parseKeyed inContext head
    return (term, links)
  | _ => (Term.parseKeyed inContext text).map fun term => (term, [])

/-- The tag of trimmed content that is not a comment. -/
def parseChars (raw : String) (directive : Option Directive) (text : List Char) :
    Except TagFault Tag := do
  let (inContext, text) := readInContext text
  let (term, links) ← parseTerms inContext text
  return {
    raw
    directive
    key := Key.ofPath (String.ofList term.key) inContext
    links
    format := term.format.map String.ofList
    escape := term.escape }

def parseContent (raw : String) (content : List Char) : Except TagFault Tag :=
  let content := Text.trim content
  if content.isEmpty then .ok (comment raw [])
  else
    match Directive.leading? content with
    | some .comment => .ok (comment raw (Text.trim (content.drop Directive.comment.symbol.length)))
    | some d => parseChars raw (some d) (content.drop d.symbol.length)
    | none => parseChars raw none content

/-- A tag by its source text and by what stands between its delimiters. -/
def parse (raw content : String) : Except TemplateError Tag :=
  let raw := String.ofList (Text.trim raw.toList)
  (parseContent raw content.toList).mapError (·.inTag raw)

end Tag

end TextTemplate
