import TextTemplate.Directive
import TextTemplate.Settings
import TextTemplate.Text.Cut

/-!
The source as a sequence of texts and tags. A tag goes from an opening delimiter to the first
closing one after it; an exclamation mark right before it makes the whole tag text, and is left out.
-/
namespace TextTemplate

inductive Token where
  | text (text : List Char)
  | tag (raw content : List Char)
  deriving DecidableEq, Repr

namespace Token

/-- The next pair of delimiters: the text before it, what stands between, and the rest. -/
def findTag? (d : Delimiters) (source : List Char) :
    Option (List Char × List Char × List Char) := do
  let (before, r) ← Text.breakOn d.opening.toList source
  let (content, rest) ← Text.breakOn d.closing.toList r
  some (before, content, rest)

/-- Scans a source whose first part, `pending`, is already known to be text. The rest gets shorter
with every tag unless both delimiters are empty; then it is text. -/
def scanFrom (d : Delimiters) (pending source : List Char) : List Token :=
  match findTag? d source with
  | none => [.text (pending ++ source)]
  | some (before, content, rest) =>
    if rest.length < source.length then
      let raw := d.opening.toList ++ content ++ d.closing.toList
      match Text.dropSuffix? Directive.tagEscape.symbol.toList (pending ++ before) with
      | some shown => .text shown :: scanFrom d raw rest
      | none => .text (pending ++ before) :: .tag raw content :: scanFrom d [] rest
    else [.text (pending ++ source)]
termination_by source.length

def scan (d : Delimiters) (source : String) : List Token := scanFrom d [] source.toList

end Token

end TextTemplate
