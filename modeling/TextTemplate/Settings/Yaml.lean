import TextTemplate.Settings.Fields
import TextTemplate.Yaml.Node

/-!
Settings in YAML text. A document is a mapping of names to values, or empty. What a plain scalar can
be read as depends on what is asked for.
-/
namespace TextTemplate

namespace Yaml

def isNullWord (s : String) : Bool := s = "~" || s = "null" || s = "Null" || s = "NULL"

def flagOfWord? (s : String) : Option Bool :=
  if s = "true" ∨ s = "True" ∨ s = "TRUE" then some true
  else if s = "false" ∨ s = "False" ∨ s = "FALSE" then some false
  else none

/-- The value of a scalar for a setting that may be null. The tag for null asks for one of its
words; a literal block counts as a word if it is tagged as a flag. -/
def Scalar.toEntry (tag : Option String) (s : Scalar) : Entry :=
  match s.style with
  | .plain =>
    let isNull := match tag with
      | none => s.text = "" || isNullWord s.text
      | some tag => tag = "tag:yaml.org,2002:null" && isNullWord s.text
    if isNull then .null
    else if tag = some "tag:yaml.org,2002:null" then .other
    else ((flagOfWord? s.text).map .flag).getD .other
  | .literal =>
    if tag = some "tag:yaml.org,2002:bool" then ((flagOfWord? s.text).map .flag).getD .other
    else .other
  | _ => .other

namespace Node

/-- The text of a scalar. -/
def text? : Node → Option String
  | scalar _ _ s => some s.text
  | _ => none

/-- What a setting can be read from; items of a sequence are read as texts. -/
def toEntry (root : Node) (node : Node) : Entry :=
  match root.follow node with
  | scalar _ tag s => s.toEntry tag
  | sequence _ items =>
    .list (items.map fun item => ((root.follow item).text?.map .text).getD .other)
  | _ => .other

/-- The settings of a document. A key must be a scalar. -/
def fields? : Node → Option (List (String × Entry))
  | root@(mapping _ members) =>
    members.mapM fun (k, v) => (root.follow k).text?.map fun name => (name, root.toEntry v)
  | scalar _ _ ⟨.plain, ""⟩ => some []
  | _ => none

end Node

end Yaml

/-- Reads a YAML text of settings. -/
def Layer.ofYamlText? (text : String) : Option Layer :=
  (Yaml.Node.parse? text).bind fun root => root.fields?.bind (Layer.ofNamed? ⟨true, false⟩)

end TextTemplate
