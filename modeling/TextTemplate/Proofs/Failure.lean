import TextTemplate.Proofs.Steady

/-!
What can go wrong with a template without links over data without functions: nothing but a key that is
missing, when that is asked to be an error.
-/
namespace TextTemplate
variable {φ : Type}

/-- Text, tags and sections without links, and included templates that are `allowed`. -/
abbrev Node.AllPlainWith (allowed : Inclusion → Prop) : List Node → Prop :=
  EveryOf Tag.Plain allowed Section.Plain

namespace Treeless

variable {env : Env φ} {data : Value φ} {inc : Inclusion → Place φ → Except TemplateError String}
  {allowed : Inclusion → Prop}

/-- The computation fails for a missing key or not at all, and its results have a property. -/
def FailsMissing {α : Type} (env : Env φ) (P : α → Prop) (x : Except TemplateError α) : Prop :=
  match x with
  | .ok a => P a
  | .error e => env.settings.errorOnMissingTags = true ∧ ∃ raw, e = .missingBinding raw

namespace FailsMissing

variable {α β : Type} {P : α → Prop} {Q : β → Prop}

theorem ok {a : α} (h : P a) : FailsMissing env P (.ok a) := h

theorem bind {x : Except TemplateError α} {f : α → Except TemplateError β}
    (h : FailsMissing env P x) (hf : ∀ a, P a → FailsMissing env Q (f a)) :
    FailsMissing env Q (x >>= f) := by
  cases x with
  | error e => exact h
  | ok a => exact hf a h

theorem of_missing (raw : String) : FailsMissing env (fun _ => True) (missing env raw) := by
  rw [missing]
  cases h : env.settings.errorOnMissingTags with
  | true => exact ⟨h, raw, rfl⟩
  | false => trivial

end FailsMissing

/-- Included templates fail for a missing key or not at all. -/
def IncludesFail (env : Env φ) (allowed : Inclusion → Prop)
    (inc : Inclusion → Place φ → Except TemplateError String) : Prop :=
  ∀ i p, allowed i → p.Clean → FailsMissing env (fun _ => True) (inc i p)

mutual

private theorem stageNode_fails (hinc : IncludesFail env allowed inc) : (node : Node) →
    ∀ {place : Place φ} (inScope : Bool)
    (waiting : List String), place.Clean → Node.AllPlainWith allowed [node] →
    FailsMissing env (Node.AllPlainWith allowed) (stageNode env data inc place inScope waiting node)
  | .text text, _, _, _, _, _ => by
    rw [stageNode]
    exact .ok ⟨trivial, trivial⟩
  | .inclusion i, place, inScope, _, hc, hn => by
    rw [stageNode]
    split
    · exact .ok hn
    · exact (hinc i place hn.1 hc).bind fun _ _ => .ok ⟨trivial, trivial⟩
  | .tag tag, place, inScope, waiting, hc, hn => by
    rw [stageNode]
    split
    · exact .ok hn
    · rcases resolve_bare env data (b := tag.binding) hn.1.links hc with ⟨-, hr⟩ | ⟨q, -, -, hr⟩
      · rw [hr]
        simp only [Bind.bind, Except.bind]
        split
        · exact (FailsMissing.of_missing tag.raw).bind fun _ _ => .ok trivial
        · exact .ok hn
      · rw [hr]
        exact .ok ⟨trivial, trivial⟩
  | .block head body, place, inScope, waiting, hc, hn => by
    cases hw : mustWait head.binding inScope waiting with
    | true =>
      rw [stage_waits hw]
      exact .ok hn
    | false =>
      rcases resolve_bare env data (b := head.binding) hn.1.1.links hc with ⟨-, hr⟩ | ⟨q, -, hq, hr⟩
      · rw [stage_missing hw hr]
        split
        · refine (FailsMissing.of_missing head.raw).bind fun _ _ => ?_
          split
          · exact .ok trivial
          · exact stageNodes_fails hinc body inScope waiting hc hn.1.2
        · exact .ok hn
      · rw [stage_found hn.1.1.passes hw hq.bound hr]
        split
        · split
          · split
            · exact .ok trivial
            · refine (stageNodes_fails hinc body false (q.path :: waiting) hc hn.1.2).bind
                fun staged hst => ?_
              exact .ok ⟨⟨hn.1.1.anchored place.path, hst⟩, trivial⟩
          · split
            · exact stageNodes_fails hinc body inScope waiting hc hn.1.2
            · exact .ok trivial
        · split
          · exact stageNodes_fails hinc body true waiting hq hn.1.2
          · exact .ok trivial

private theorem stageNodes_fails (hinc : IncludesFail env allowed inc) : (nodes : List Node) →
    ∀ {place : Place φ} (inScope : Bool) (waiting : List String), place.Clean →
    Node.AllPlainWith allowed nodes →
    FailsMissing env (Node.AllPlainWith allowed) (stageNodes env data inc place inScope waiting nodes)
  | [], _, _, _, _, _ => by
    rw [stageNodes]
    exact .ok trivial
  | node :: nodes, place, inScope, waiting, hc, hn => by
    rw [stageNodes]
    exact (stageNode_fails hinc node inScope waiting hc ⟨hn.1, trivial⟩).bind fun a ha =>
      (stageNodes_fails hinc nodes inScope waiting hc hn.2).bind fun b hb =>
        .ok (Node.everyOf_append.2 ⟨ha, hb⟩)

end

/-- A body of a section that fails at most for a missing key. -/
def BodyFails (env : Env φ)
    (render : Place φ → List (Place φ) → Except TemplateError String) : Prop :=
  ∀ p os, p.Clean → (∀ o ∈ os, o.Clean) → FailsMissing env (fun _ => True) (render p os)

private theorem expandItems_fails {raw : String} {q : Place φ} {overlays : List (Place φ)}
    {render : Place φ → List (Place φ) → Except TemplateError String} (hq : q.Clean)
    (ho : ∀ o ∈ overlays, o.Clean) (hbody : BodyFails env render) (indices : List Nat) :
    FailsMissing env (fun _ => True) (expandItems env data raw render q overlays indices) := by
  induction indices with
  | nil => exact .ok trivial
  | cons i rest ih =>
    have hitem := hq.item i
    have hos : ∀ o ∈ q.item q.bound i :: overlays, o.Clean := fun o hm => by
      rcases List.mem_cons.1 hm with rfl | hm
      · exact hitem
      · exact ho o hm
    rw [expandItems]
    simp only [hq.read, hitem.read, display_clean hitem.bound, Bind.bind, Except.bind]
    split
    · exact (hbody _ _ hitem hos).bind fun _ _ => ih.bind fun _ _ => .ok trivial
    · exact ih

private theorem expandSection_fails {head : Section} {place : Place φ} {overlays : List (Place φ)}
    {render : Place φ → List (Place φ) → Except TemplateError String} (hn : head.Plain)
    (hc : place.Clean) (ho : ∀ o ∈ overlays, o.Clean) (hbody : BodyFails env render) :
    FailsMissing env (fun _ => True) (expandSection env data head render place overlays) := by
  rcases resolve_clean env data (b := head.binding) hn.links hc ho with ⟨-, hr⟩ | ⟨q, -, hq, hr⟩
  · rw [expand_missing hr]
    refine (FailsMissing.of_missing head.raw).bind fun _ _ => ?_
    split
    · exact .ok trivial
    · exact hbody _ _ hc ho
  · rw [expand_found hn.passes hq.bound hr]
    split
    · split
      · exact (expandItems_fails hq ho hbody _).bind fun _ _ => .ok trivial
      · split
        · exact hbody _ _ hc ho
        · exact .ok trivial
    · split
      · exact hbody _ _ hq ho
      · exact .ok trivial

private theorem settleLevel_fails (hinc : IncludesFail env allowed inc) {place : Place φ}
    {overlays : List (Place φ)} (hc : place.Clean) (ho : ∀ o ∈ overlays, o.Clean) {nodes : List Node}
    (hn : Node.AllPlainWith allowed nodes)
    (pieces : List (Option String)) :
    FailsMissing env (fun _ => True)
      (settleLevel env data inc place overlays (nodes.zip pieces)) := by
  induction nodes generalizing pieces with
  | nil => exact .ok trivial
  | cons node nodes ih =>
    cases pieces with
    | nil => exact .ok trivial
    | cons piece pieces =>
      rw [List.zip_cons_cons, settleLevel]
      have hnode : FailsMissing env (fun _ => True)
          (settleNode env data inc place overlays piece node) := by
        cases node with
        | text _ => exact .ok trivial
        | inclusion i => exact hinc i place hn.1 hc
        | block _ _ => exact .ok trivial
        | tag tag =>
          rw [settleNode]
          rcases resolve_clean env data (b := tag.binding) hn.1.links hc ho with
            ⟨-, hr⟩ | ⟨q, -, -, hr⟩
          · rw [hr]
            exact (FailsMissing.of_missing tag.raw).bind fun _ _ => .ok trivial
          · rw [hr]
            exact .ok trivial
      exact hnode.bind fun _ _ => (ih hn.2 pieces).bind fun _ _ => .ok trivial

mutual

private theorem expandNode_fails (hinc : IncludesFail env allowed inc) : (node : Node) →
    ∀ {place : Place φ} {overlays : List (Place φ)}, place.Clean → (∀ o ∈ overlays, o.Clean) →
    Node.AllPlainWith allowed [node] →
    FailsMissing env (fun _ => True) (expandNode env data inc place overlays node)
  | .block head body, _, _, hc, ho, hn => by
    rw [expandNode]
    refine (expandSection_fails hn.1.1 hc ho fun p os hp hos => ?_).bind fun _ _ => .ok trivial
    exact (expandNodes_fails hinc body hp hos hn.1.2).bind fun pieces _ =>
      settleLevel_fails hinc hp hos hn.1.2 pieces
  | .text _, _, _, _, _, _ => by rw [expandNode] <;> [exact .ok trivial; simp]
  | .inclusion _, _, _, _, _, _ => by rw [expandNode] <;> [exact .ok trivial; simp]
  | .tag _, _, _, _, _, _ => by rw [expandNode] <;> [exact .ok trivial; simp]

private theorem expandNodes_fails (hinc : IncludesFail env allowed inc) : (nodes : List Node) →
    ∀ {place : Place φ} {overlays : List (Place φ)}, place.Clean → (∀ o ∈ overlays, o.Clean) →
    Node.AllPlainWith allowed nodes →
    FailsMissing env (fun _ => True) (expandNodes env data inc place overlays nodes)
  | [], _, _, _, _, _ => by
    rw [expandNodes]
    exact .ok trivial
  | node :: nodes, _, _, hc, ho, hn => by
    rw [expandNodes]
    exact (expandNode_fails hinc node hc ho ⟨hn.1, trivial⟩).bind fun _ _ =>
      (expandNodes_fails hinc nodes hc ho hn.2).bind fun _ _ => .ok trivial

end

theorem renderNodes_fails (hinc : IncludesFail env allowed inc) {place : Place φ} (hc : place.Clean)
    {nodes : List Node} (hn : Node.AllPlainWith allowed nodes) :
    FailsMissing env (fun _ => True) (renderNodes env data inc place nodes) :=
  (stageNodes_fails hinc nodes true [] hc hn).bind fun staged hst =>
    (expandNodes_fails hinc staged hc (by simp) hst).bind fun pieces _ =>
      settleLevel_fails hinc hc (by simp) hst pieces

/-- A plain template over data can only lack a key. -/
theorem error_of_render {template : Template} (hd : data.isData = true)
    (hn : Node.AllPlain template.nodes) {e : TemplateError}
    (he : render env template data = .error e) :
    env.settings.errorOnMissingTags = true ∧ ∃ raw, e = .missingBinding raw := by
  have hfails : FailsMissing env (fun _ => True) (render env template data) :=
    renderNodes_fails (fun _ _ hi => hi.elim) (.top hd) hn
  rwa [he] at hfails

end Treeless

end TextTemplate
