/-!
Directives: the marks that give a tag its role. Six stand in front of a tag, four belong inside it,
two open sections with more than one character, and one stands before a tag to keep it literal.
-/
namespace TextTemplate

inductive Directive where
  /-- A tag that is left out. -/
  | comment
  /-- A sequence written as a list in running text. -/
  | list
  /-- A repeated section joined as a list in running text. -/
  | listSection
  /-- A section whose text is passed to a function. -/
  | passSection
  /-- A section shown for what holds. -/
  | sectionInclude
  /-- A section shown for what does not hold. -/
  | sectionExclude
  /-- The end of a section. -/
  | sectionEnd
  /-- Another template, put in place of the tag. -/
  | inclusion
  /-- A key read in the enclosing scope. -/
  | inContext
  /-- A value passed on to a function. -/
  | passContext
  /-- A format for the value. -/
  | format
  /-- Escaping for HTML. -/
  | escape
  /-- An opening delimiter that is text. -/
  | tagEscape
  deriving DecidableEq, Repr

namespace Directive

/-- All directives, in the order of their ordinals. -/
def all : List Directive :=
  [comment, list, listSection, passSection, sectionInclude, sectionExclude, sectionEnd, inclusion,
    inContext, passContext, format, escape, tagEscape]

def symbol : Directive → String
  | comment => "!"
  | list => "&"
  | listSection => "&#"
  | passSection => "#->"
  | sectionInclude => "#"
  | sectionExclude => "^"
  | sectionEnd => "/"
  | inclusion => ">"
  | inContext => "."
  | passContext => "->"
  | format => "::"
  | escape => ";"
  | tagEscape => "!"

/-- Position among all directives, counted from one. -/
def ordinal : Directive → Nat
  | comment => 1
  | list => 2
  | listSection => 3
  | passSection => 4
  | sectionInclude => 5
  | sectionExclude => 6
  | sectionEnd => 7
  | inclusion => 8
  | inContext => 9
  | passContext => 10
  | format => 11
  | escape => 12
  | tagEscape => 13

def ofOrdinal? (n : Nat) : Option Directive := all.find? fun d => d.ordinal = n

/-- The directive a symbol spells. The escape of a whole tag has no symbol of its own inside tags.
-/
def ofSymbol? (s : String) : Option Directive :=
  all.find? fun d => d ≠ tagEscape ∧ d.symbol = s

/-- Directives of one character that may stand in front of a tag. -/
def isLeadingMark : Directive → Bool
  | comment | list | sectionInclude | sectionExclude | sectionEnd | inclusion => true
  | _ => false

/-- The directive in front of a tag's content; the two long ones are tried first. -/
def leading? (content : List Char) : Option Directive :=
  if listSection.symbol.toList.isPrefixOf content then some listSection
  else if passSection.symbol.toList.isPrefixOf content then some passSection
  else content.head?.bind fun c => (ofSymbol? (String.singleton c)).filter isLeadingMark

def opensSection : Directive → Bool
  | listSection | passSection | sectionInclude | sectionExclude => true
  | _ => false

end Directive

end TextTemplate
