import TextTemplate.Number.Spec
import TextTemplate.Text.Case
import TextTemplate.Text.Characters
import TextTemplate.Value

/-!
Formats of a value: by name a change of case or of escaping, and every other format is a number
specifier. A specifier that is refused, or a text that is no number, leaves the text as it is.

Escaping is for HTML text and quoted attributes: five characters are written as entities, all others
stand for themselves. Lists run as in a text: `A`, `A and B`, `A, B, and C`.
-/
namespace TextTemplate

namespace Text

def escapeChar : Char → List Char
  | '&' => ['&', 'a', 'm', 'p', ';']
  | '<' => ['&', 'l', 't', ';']
  | '>' => ['&', 'g', 't', ';']
  | '"' => ['&', 'q', 'u', 'o', 't', ';']
  | '\'' => ['&', '#', '0', '3', '9', ';']
  | c => [c]

def escapeChars (s : List Char) : List Char := s.flatMap escapeChar

def escapeHtml (text : String) : String := String.ofList (escapeChars text.toList)

theorem escapeChars_append (s t : List Char) :
    escapeChars (s ++ t) = escapeChars s ++ escapeChars t :=
  List.flatMap_append

theorem toList_escapeHtml (text : String) :
    (escapeHtml text).toList = escapeChars text.toList := by
  simp [escapeHtml]

def joinList : List String → String
  | [] => ""
  | [a] => a
  | [a, b] => a ++ " and " ++ b
  | items => String.intercalate ", " items.dropLast ++ ", and " ++ items.getLastD ""

end Text

inductive Format where
  | raw
  | encode
  | upper
  | lower
  | capitalize
  | number (spec : String)
  deriving DecidableEq, Repr

namespace Format

def ofName (name : String) : Format :=
  if name = "raw" ∨ name = "html" then raw
  else if name = "encode" then encode
  else if name = "upper" ∨ name = "caps" ∨ name = "allcaps" then upper
  else if name = "lower" then lower
  else if name = "capitalize" then capitalize
  else number name

/-- The formatted text, before escaping. -/
def apply (numbers : Number.Formatter) (text : String) : Format → String
  | raw | encode => text
  | upper => String.ofList (Text.upper text.toList)
  | lower => String.ofList (Text.lower text.toList)
  | capitalize => Text.capitalize text
  | number spec =>
    match Number.read? (Text.trim text.toList) with
    | some x => (numbers spec x).toOption.getD text
    | none => text

/-- Whether the text is escaped, given whether that was asked for otherwise. -/
def escapes (asked : Bool) : Format → Bool
  | raw => false
  | encode => true
  | _ => asked

end Format

/-- The text of a value under a format. Blank values have none. -/
def formatValue {φ : Type} (numbers : Number.Formatter) (format : Option String) (escape : Bool)
    (v : Value φ) : String :=
  if v.isBlank then ""
  else
    let format := format.map Format.ofName
    let text := format.elim v.plain (Format.apply numbers v.plain)
    if format.elim escape (Format.escapes escape) then Text.escapeHtml text else text

end TextTemplate
