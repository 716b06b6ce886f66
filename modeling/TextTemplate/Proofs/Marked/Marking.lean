import TextTemplate.Proofs.Nodes
import TextTemplate.Render

/-!
Marking every tag for escaping. A marked tag keeps its key and its links; its source text may be another
one. Without links, a tag that is marked shows what it shows when everything is escaped.
-/
namespace TextTemplate
variable {φ : Type}

/-- The tag with the mark, written as `rename` has it. -/
def Tag.marked (rename : Tag → String) (tag : Tag) : Tag :=
  { tag with raw := rename tag, escape := true }

namespace Node

mutual

/-- The node with the mark on every tag in it. Sections and included templates are as they were. -/
def marked (rename : Tag → String) : Node → Node
  | text t => .text t
  | tag t => .tag (t.marked rename)
  | inclusion i => .inclusion i
  | block head body => .block head (allMarked rename body)

def allMarked (rename : Tag → String) : List Node → List Node
  | [] => []
  | node :: nodes => marked rename node :: allMarked rename nodes

end

theorem allMarked_append (rename : Tag → String) (a b : List Node) :
    allMarked rename (a ++ b) = allMarked rename a ++ allMarked rename b := by
  induction a with
  | nil => rfl
  | cons node a ih => rw [List.cons_append, allMarked, allMarked, ih, List.cons_append]

mutual

/-- The tags in a node, without those of sections and of included templates. -/
def tags : Node → List Tag
  | text _ => []
  | tag t => [t]
  | inclusion _ => []
  | block _ body => allTags body

def allTags : List Node → List Tag
  | [] => []
  | node :: nodes => tags node ++ allTags nodes

end

/-- Nodes in which every tag has the property. -/
abbrev EveryTag (P : Tag → Prop) : List Node → Prop := EveryOf P (fun _ => True) fun _ => True

mutual

theorem every_tags {P : Tag → Prop} : (node : Node) → (∀ tag ∈ tags node, P tag) →
    Every P (fun _ => True) (fun _ => True) node
  | text _, _ => trivial
  | tag t, h => h t List.mem_cons_self
  | inclusion _, _ => trivial
  | block _ body, h => ⟨trivial, everyTag_allTags body h⟩

theorem everyTag_allTags {P : Tag → Prop} : (nodes : List Node) →
    (∀ tag ∈ allTags nodes, P tag) → EveryTag P nodes
  | [], _ => trivial
  | node :: nodes, h =>
    ⟨every_tags node fun t ht => h t (List.mem_append_left _ ht),
      everyTag_allTags nodes fun t ht => h t (List.mem_append_right _ ht)⟩

end

end Node

namespace Template

def marked (rename : Tag → String) (template : Template) : Template :=
  { template with nodes := Node.allMarked rename template.nodes }

def tags (template : Template) : List Tag := Node.allTags template.nodes

/-- Every tag shows a value as it is, without passing it through functions. -/
def Unlinked (template : Template) : Prop := ∀ tag ∈ template.tags, tag.links = []

def allMarked (rename : Tag → String) (templates : List (String × Template)) :
    List (String × Template) :=
  templates.map fun (name, t) => (name, t.marked rename)

theorem lookup_allMarked (rename : Tag → String) (templates : List (String × Template))
    (name : String) :
    (allMarked rename templates).lookup name = (templates.lookup name).map (marked rename) := by
  induction templates with
  | nil => rfl
  | cons entry templates ih =>
    obtain ⟨n, t⟩ := entry
    rw [allMarked, List.map_cons, List.lookup_cons, List.lookup_cons]
    split
    · rfl
    · exact ih

end Template

/-- The environment of the marked template: not everything is escaped, but the templates to include
are marked as well. -/
def Env.marked (rename : Tag → String) (env : Env φ) : Env φ :=
  { env with
    settings := { env.settings with escapeAll := false }
    templates := Template.allMarked rename env.templates }

section Envs

variable (rename : Tag → String) (env : Env φ)

theorem passThrough_marked (policy : FailurePolicy) (steps : List (φ × Link)) (v : Value φ) :
    Run.passThrough (env.marked rename) policy steps v = Run.passThrough env policy steps v := by
  induction steps generalizing v with
  | nil => rfl
  | cons step steps ih =>
    simp only [Run.passThrough, ih]
    rfl

theorem resolve_marked (b : Binding) (scope : ScopeId) (overlays : List ScopeId) :
    Run.resolve (env.marked rename) b scope overlays = Run.resolve env b scope overlays := by
  simp only [Run.resolve, passThrough_marked]
  rfl

/-- The mark does what the setting does. -/
theorem tagText_marked (hall : env.settings.escapeAll = true) {tag : Tag} (hl : tag.links = [])
    (v : Value φ) : tagText (env.marked rename) (tag.marked rename) v = tagText env tag v := by
  simp [tagText, Tag.marked, Env.marked, Tag.isList, hl, hall]

end Envs

end TextTemplate
