import TextTemplate.Directive
import TextTemplate.Text.Cut

/-!
Tags and their parts. A key names a place in the data by a dotted path, seen from the whole data or
from the enclosing scope; a link passes a value on to the function at a key.
-/
namespace TextTemplate

/-- The parts of a dotted path; the empty path has none. -/
def splitPath (path : String) : List String :=
  if path.isEmpty then [] else (Text.splitAt '.' path.toList).map String.ofList

/-- The path of `key` seen from the scope at `path`. -/
def joinPath (path key : String) : String :=
  if path.isEmpty then key
  else if key.isEmpty then path
  else path ++ "." ++ key

/-- A dotted path as written in a tag. -/
structure Key where
  text : String
  segments : List String
  inContext : Bool
  deriving DecidableEq, Repr

namespace Key

def ofPath (path : String) (inContext : Bool) : Key := ⟨path, splitPath path, inContext⟩

/-- The key seen from the whole data, when it is seen from the scope at `path`. The whole data
itself has no key of its own, so a bare key at the top stays as it is. -/
def anchored (path : String) (key : Key) : Key :=
  let joined := joinPath path key.text
  if key.inContext ∧ joined ≠ "" then ofPath joined false else key

end Key

/-- One function a value is passed through; format and escape apply to what it returns. -/
structure Link where
  key : Key
  format : Option String
  escape : Bool
  deriving DecidableEq, Repr

namespace Link

/-- The link from a section to the function at its own key. -/
def ofKey (key : Key) : Link := ⟨Key.ofPath key.text key.inContext, none, false⟩

def anchored (path : String) (link : Link) : Link := { link with key := link.key.anchored path }

/-- Whether the link's output is never escaped again. -/
def settlesEscape (link : Link) : Bool :=
  link.escape || link.format = some "raw" || link.format = some "html" ||
    link.format = some "encode"

end Link

/-- A tag of the template. `raw` is its source text, delimiters included. -/
structure Tag where
  raw : String
  directive : Option Directive
  key : Key
  links : List Link
  format : Option String
  escape : Bool
  deriving DecidableEq, Repr

namespace Tag

def isList (tag : Tag) : Bool := tag.directive = some .list

/-- Whether the last link has settled the escaping of the value. -/
def outputEscaped (tag : Tag) : Bool := tag.links.getLast?.any Link.settlesEscape

end Tag

/-- What a key, its links and its own format ask the scopes for. -/
structure Binding where
  raw : String
  key : Key
  links : List Link
  format : Option String
  escape : Bool
  /-- The value is a section's text, which is not there yet. -/
  awaitsText : Bool
  deriving DecidableEq, Repr

/-- Keys of the binding itself and of its links. -/
def Binding.keys (b : Binding) : List Key := b.key :: b.links.map Link.key

def Tag.binding (tag : Tag) : Binding where
  raw := tag.raw
  key := tag.key
  links := tag.links
  format := tag.format
  escape := tag.escape
  awaitsText := false

end TextTemplate
