import TextTemplate.Tag.Grammar

/-!
Template trees. A section's head keeps its opening tag and the key and links it is bound by, which
move when the section is put off to a later pass; its body stands beside the head in the tree.
-/
namespace TextTemplate

/-- A tag that puts another template in its place. -/
structure Inclusion where
  raw : String
  key : Key
  format : Option String
  escape : Bool
  deriving DecidableEq, Repr

def Inclusion.ofTag (tag : Tag) : Except TemplateError Inclusion :=
  if tag.links.isEmpty then .ok ⟨tag.raw, tag.key, tag.format, tag.escape⟩
  else .error (TagFault.linkedPartial.inTag tag.raw)

/-- The head of a section. -/
structure Section where
  opener : Tag
  key : Key
  links : List Link
  deriving DecidableEq, Repr

namespace Section

def raw (s : Section) : String := s.opener.raw

/-- Shown for what holds; otherwise for what does not. -/
def inclusive (s : Section) : Bool := s.opener.directive ≠ some .sectionExclude

/-- Items are joined as a list in running text. -/
def list (s : Section) : Bool := s.opener.directive = some .listSection

/-- The text of the body is passed through the links. -/
def passesText (s : Section) : Bool := s.opener.directive = some .passSection

/-- The section a tag opens. The first link of a pass section is the function at its own key. -/
def ofTag (tag : Tag) : Except TemplateError Section :=
  if tag.format.isSome then .error (TagFault.formattedSection.inTag tag.raw)
  else if tag.escape then .error (TagFault.escapedSection.inTag tag.raw)
  else .ok {
    opener := tag
    key := tag.key
    links := if tag.directive = some .passSection then Link.ofKey tag.key :: tag.links
      else tag.links }

/-- The head with its keys seen from the whole data instead of from the scope at `path`. -/
def anchored (path : String) (s : Section) : Section where
  opener := s.opener
  key := s.key.anchored path
  links := s.links.map (·.anchored path)

def binding (s : Section) : Binding where
  raw := s.raw
  key := s.key
  links := s.links
  format := none
  escape := false
  awaitsText := s.passesText

end Section

inductive Node where
  | text (text : String)
  | tag (tag : Tag)
  | inclusion (inclusion : Inclusion)
  | block (head : Section) (body : List Node)

namespace Node

instance : Inhabited Node := ⟨.text ""⟩

/-- Source text of the tag, or of the section's opening tag. -/
def raw? : Node → Option String
  | text _ => none
  | tag t => some t.raw
  | inclusion i => some i.raw
  | block s _ => some s.raw

end Node

end TextTemplate
