import TextTemplate.Node
import TextTemplate.Token

/-!
From tokens to a template tree. Sections still open are kept innermost first, each with the nodes
that stand before it; a closing tag must name the key of the innermost one.
-/
namespace TextTemplate

/-- An open section and the nodes before it on its level, last first. -/
structure Frame where
  head : Section
  outer : List Node

inductive SectionFault where
  | unpairedClose
  | conflict (opener : String)
  | hanging
  deriving DecidableEq, Repr

namespace SectionFault

def message : SectionFault → String
  | unpairedClose => "unpaired section close"
  | conflict opener => "section conflict, close before inner " ++ opener ++ " closed"
  | hanging => "hanging open section"

def inTag (fault : SectionFault) (raw : String) : TemplateError := .invalidSection fault.message raw

end SectionFault

namespace Node

/-- Adds text to a level, last node first; neighbouring texts become one and empty text is none. -/
def pushText (shown : List Char) : List Node → List Node
  | .text before :: level =>
    if shown.isEmpty then .text before :: level
    else .text (before ++ String.ofList shown) :: level
  | level => if shown.isEmpty then level else .text (String.ofList shown) :: level

/-- Builds the tree of the tokens that follow, given the open sections and the current level. -/
def assemble : List Frame → List Node → List Token → Except TemplateError (List Node)
  | [], level, [] => .ok level.reverse
  | frame :: _, _, [] => .error (SectionFault.hanging.inTag frame.head.raw)
  | frames, level, .text shown :: tokens => assemble frames (pushText shown level) tokens
  | frames, level, .tag raw content :: tokens => do
    let tag ← Tag.parse (String.ofList raw) (String.ofList content)
    match tag.directive with
    | some .comment => assemble frames level tokens
    | some .inclusion =>
      let i ← Inclusion.ofTag tag
      assemble frames (.inclusion i :: level) tokens
    | some .sectionEnd =>
      match frames with
      | [] => .error (SectionFault.unpairedClose.inTag tag.raw)
      | frame :: frames =>
        if frame.head.key.text = tag.key.text then
          assemble frames (.block frame.head level.reverse :: frame.outer) tokens
        else .error ((SectionFault.conflict frame.head.raw).inTag tag.raw)
    | some d =>
      if d.opensSection then
        let head ← Section.ofTag tag
        assemble (⟨head, level⟩ :: frames) [] tokens
      else assemble frames (.tag tag :: level) tokens
    | none => assemble frames (.tag tag :: level) tokens

def parse (source : String) (d : Delimiters) : Except TemplateError (List Node) :=
  assemble [] [] (Token.scan d source)

end Node

end TextTemplate
