import TextTemplate.Node.Assembly

/-!
Properties of all the parts of a template tree.
-/
namespace TextTemplate

theorem Section.keys_anchored (head : Section) (path : String) :
    (head.anchored path).binding.keys = head.binding.keys.map (·.anchored path) := by
  simp [Binding.keys, Section.binding, Section.anchored, Link.anchored]

namespace Node

mutual

/-- Whether every tag, included template and section head in a node has its property. -/
def Every (tags : Tag → Prop) (inclusions : Inclusion → Prop) (heads : Section → Prop) : Node → Prop
  | text _ => True
  | tag t => tags t
  | inclusion i => inclusions i
  | block head body => heads head ∧ EveryOf tags inclusions heads body

def EveryOf (tags : Tag → Prop) (inclusions : Inclusion → Prop) (heads : Section → Prop) :
    List Node → Prop
  | [] => True
  | node :: nodes => Every tags inclusions heads node ∧ EveryOf tags inclusions heads nodes

end

variable {tags tags' : Tag → Prop} {inclusions inclusions' : Inclusion → Prop}
  {heads heads' : Section → Prop}

theorem everyOf_iff {nodes : List Node} : EveryOf tags inclusions heads nodes ↔
    ∀ node ∈ nodes, Every tags inclusions heads node := by
  induction nodes with
  | nil => simp [EveryOf]
  | cons node nodes ih => simp [EveryOf, ih]

theorem everyOf_append {a b : List Node} : EveryOf tags inclusions heads (a ++ b) ↔
    EveryOf tags inclusions heads a ∧ EveryOf tags inclusions heads b := by
  induction a with
  | nil => simp [EveryOf]
  | cons node nodes ih => simp [EveryOf, ih, and_assoc]

theorem EveryOf.reverse {nodes : List Node} (h : EveryOf tags inclusions heads nodes) :
    EveryOf tags inclusions heads nodes.reverse :=
  everyOf_iff.2 fun node hm => everyOf_iff.1 h node (List.mem_reverse.1 hm)

/-- Text has none of these parts. -/
theorem EveryOf.pushText {level : List Node} (h : EveryOf tags inclusions heads level)
    (shown : List Char) : EveryOf tags inclusions heads (pushText shown level) := by
  rw [pushText.eq_def]
  split
  · split
    · exact h
    · exact ⟨trivial, h.2⟩
  · split
    · exact h
    · exact ⟨trivial, h⟩

mutual

theorem Every.imp (ht : ∀ t, tags t → tags' t) (hi : ∀ i, inclusions i → inclusions' i)
    (hs : ∀ s, heads s → heads' s) :
    (node : Node) → Every tags inclusions heads node → Every tags' inclusions' heads' node
  | text _, h => h
  | tag t, h => ht t h
  | inclusion i, h => hi i h
  | block head body, h => ⟨hs head h.1, EveryOf.imp ht hi hs body h.2⟩

theorem EveryOf.imp (ht : ∀ t, tags t → tags' t) (hi : ∀ i, inclusions i → inclusions' i)
    (hs : ∀ s, heads s → heads' s) :
    (nodes : List Node) → EveryOf tags inclusions heads nodes →
      EveryOf tags' inclusions' heads' nodes
  | [], h => h
  | node :: nodes, h => ⟨Every.imp ht hi hs node h.1, EveryOf.imp ht hi hs nodes h.2⟩

end

mutual

theorem Every.and : (node : Node) → Every tags inclusions heads node →
    Every tags' inclusions' heads' node →
    Every (fun t => tags t ∧ tags' t) (fun i => inclusions i ∧ inclusions' i)
      (fun s => heads s ∧ heads' s) node
  | text _, _, _ => trivial
  | tag _, h, h' => ⟨h, h'⟩
  | inclusion _, h, h' => ⟨h, h'⟩
  | block _ body, h, h' => ⟨⟨h.1, h'.1⟩, EveryOf.and body h.2 h'.2⟩

theorem EveryOf.and : (nodes : List Node) → EveryOf tags inclusions heads nodes →
    EveryOf tags' inclusions' heads' nodes →
    EveryOf (fun t => tags t ∧ tags' t) (fun i => inclusions i ∧ inclusions' i)
      (fun s => heads s ∧ heads' s) nodes
  | [], _, _ => trivial
  | node :: nodes, h, h' => ⟨Every.and node h.1 h'.1, EveryOf.and nodes h.2 h'.2⟩

end

end Node

end TextTemplate
