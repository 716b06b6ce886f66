import TextTemplate.Proofs.Errors.Bindings
import TextTemplate.Proofs.Nodes

/-!
The errors of a render. Everything that can go wrong goes wrong at a tag, at a section or at an
included template, and settings decide which of it is an error. An error is about a tag of the
template that is rendered: what goes wrong inside an included template stays there.
-/
namespace TextTemplate
variable {φ : Type}

namespace Run

section Passes

variable {E : TemplateError → Prop} {env : Env φ} {inc : Inclusion → ScopeId → Run φ String}

/-- The errors of the included template are among those of `E`. -/
abbrev BearsInclusion (E : TemplateError → Prop) (env : Env φ) (i : Inclusion) : Prop :=
  ∀ e, i.Fault env.settings e → E e

/-- The errors of all parts of a node are among those of `E`. -/
abbrev BearsNode (E : TemplateError → Prop) (env : Env φ) : Node → Prop :=
  Node.Every (fun t => Bears E env t.binding) (BearsInclusion E env) fun s => Bears E env s.binding

abbrev BearsNodes (E : TemplateError → Prop) (env : Env φ) : List Node → Prop :=
  Node.EveryOf (fun t => Bears E env t.binding) (BearsInclusion E env)
    fun s => Bears E env s.binding

/-- A section has the same errors wherever its keys are seen from. -/
theorem bears_anchored {head : Section} (h : Bears E env head.binding) (path : String) :
    Bears E env (head.anchored path).binding := by
  have hlinks : (head.anchored path).binding.links ≠ [] → head.binding.links ≠ [] := by
    simp [Section.anchored, Section.binding]
  intro e he
  cases he with
  | missing strict => exact h _ (.missing strict)
  | failed strict message => exact h _ (.failed strict message)
  | unresolved linked => exact h _ (.unresolved (hlinks linked))
  | nonFunction linked => exact h _ (.nonFunction (hlinks linked))

/-- Included templates end with their own errors only. -/
abbrev BearsInclusions (E : TemplateError → Prop) (env : Env φ)
    (inc : Inclusion → ScopeId → Run φ String) : Prop :=
  ∀ i scope, BearsInclusion E env i → Ends E (fun _ => True) (inc i scope)

/-- A section has no errors that were not there before when its body has none. -/
private theorem ends_stageBlock {head : Section} {body : List Node}
    (hhead : Bears E env head.binding)
    (hbody : BearsNodes E env body)
    (hstage : ∀ (scope : ScopeId) (inScope : Bool) (waiting : List ScopeId),
      Ends E (BearsNodes E env) (stageNodes env inc scope inScope waiting body))
    (scope : ScopeId) (inScope : Bool) (waiting : List ScopeId) :
    Ends E (BearsNodes E env) (stageNode env inc scope inScope waiting (.block head body)) := by
  have hkept : BearsNodes E env [.block head body] := ⟨⟨hhead, hbody⟩, trivial⟩
  have hcopied : ∀ path inScope waiting, Ends E (BearsNodes E env)
      (do return [.block (head.anchored path) (← stageNodes env inc scope inScope waiting body)]) :=
    fun path inScope waiting => (hstage scope inScope waiting).bind fun _ hs =>
      .pure ⟨⟨bears_anchored hhead path, hs⟩, trivial⟩
  rw [stageNode]
  apply Ends.look
  intro t
  split
  · exact .pure hkept
  · apply (ends_resolve hhead scope []).bind
    intro r _
    cases r with
    | none =>
      dsimp only
      split
      · apply (ends_missing hhead).bind
        intro _ _
        split
        · exact .pure trivial
        · exact hstage scope inScope waiting
      · exact .pure hkept
    | some r =>
      apply Ends.look
      intro t'
      dsimp only
      split
      · exact hcopied _ inScope _
      · split
        · split
          · split
            · exact hstage scope inScope waiting
            · exact .pure trivial
          · split
            · exact .pure trivial
            · exact (ends_innerScope r).bind fun inner _ => hcopied _ false _
        · apply (ends_display hhead head.inclusive (r.value.getD .null)).bind
          intro shown _
          split
          · exact (ends_innerScope r).bind fun inner _ => hstage inner true waiting
          · exact .pure trivial

mutual

/-- What is left for the second pass has no errors that were not there before. -/
private theorem ends_stageNode (hinc : BearsInclusions E env inc) : (node : Node) → ∀
    (scope : ScopeId)
    (inScope : Bool) (waiting : List ScopeId), BearsNode E env node →
    Ends E (BearsNodes E env) (stageNode env inc scope inScope waiting node)
  | .text text, scope, inScope, waiting, _ => by
    rw [stageNode]
    exact .pure ⟨trivial, trivial⟩
  | .inclusion i, scope, inScope, waiting, hn => by
    rw [stageNode]
    split
    · exact .pure ⟨hn, trivial⟩
    · exact (hinc i scope hn).bind fun _ _ => .pure ⟨trivial, trivial⟩
  | .tag tag, scope, inScope, waiting, hn => by
    have hkept : BearsNodes E env [.tag tag] := ⟨hn, trivial⟩
    rw [stageNode]
    apply Ends.look
    intro t
    split
    · exact .pure hkept
    · apply (ends_resolve hn scope []).bind
      intro r _
      cases r with
      | some r => exact .pure ⟨trivial, trivial⟩
      | none =>
        dsimp only
        split
        · exact (ends_missing hn).bind fun _ _ => .pure trivial
        · exact .pure hkept
  | .block _ body, scope, inScope, waiting, ⟨hhead, hbody⟩ =>
    ends_stageBlock hhead hbody (fun scope inScope waiting =>
      ends_stageNodes hinc body scope inScope waiting hbody) scope inScope waiting

private theorem ends_stageNodes (hinc : BearsInclusions E env inc) : (nodes : List Node) →
    ∀ (scope : ScopeId) (inScope : Bool) (waiting : List ScopeId), BearsNodes E env nodes →
    Ends E (BearsNodes E env) (stageNodes env inc scope inScope waiting nodes)
  | [], scope, inScope, waiting, _ => by
    rw [stageNodes]
    exact .pure trivial
  | node :: nodes, scope, inScope, waiting, hn => by
    rw [stageNodes]
    exact (ends_stageNode hinc node scope inScope waiting hn.1).bind fun a ha =>
      (ends_stageNodes hinc nodes scope inScope waiting hn.2).bind fun b hb =>
        .pure (Node.everyOf_append.2 ⟨ha, hb⟩)

end

private theorem ends_settleNode (hinc : BearsInclusions E env inc) (scope : ScopeId)
    (overlays : List ScopeId) (expanded : Option String)
    {node : Node} (hn : BearsNode E env node) :
    Ends E (fun _ => True) (settleNode env inc scope overlays expanded node) := by
  cases node with
  | text text => exact .pure trivial
  | block head body => exact .pure trivial
  | inclusion i => exact hinc i scope hn
  | tag tag =>
    apply (ends_resolve hn scope overlays).bind
    intro r _
    cases r with
    | some r => exact .pure trivial
    | none => exact (ends_missing hn).bind fun _ _ => .pure trivial

private theorem ends_settleLevel (hinc : BearsInclusions E env inc) (scope : ScopeId)
    (overlays : List ScopeId) {nodes : List Node}
    (hn : BearsNodes E env nodes) (pieces : List (Option String)) :
    Ends E (fun _ => True) (settleLevel env inc scope overlays (nodes.zip pieces)) := by
  induction nodes generalizing pieces with
  | nil => exact .pure trivial
  | cons node nodes ih =>
    cases pieces with
    | nil => exact .pure trivial
    | cons piece pieces =>
      rw [List.zip_cons_cons, settleLevel]
      exact (ends_settleNode hinc scope overlays piece hn.1).bind fun _ _ =>
        (ih hn.2 pieces).bind fun _ _ => .pure trivial

private theorem ends_expandItems {head : Section} (hb : Bears E env head.binding)
    {body : ScopeId → List ScopeId → Run φ String}
    (hbody : ∀ scope overlays, Ends E (fun _ => True) (body scope overlays)) (scope : ScopeId)
    (overlays : List ScopeId) (indices : List Nat) :
    Ends E (fun _ => True) (expandItems env head.raw body scope overlays indices) := by
  induction indices with
  | nil => exact .pure trivial
  | cons index rest ih =>
    apply (ends_item hb.fails scope index).bind
    intro item _
    apply (ends_value hb.fails item).bind
    intro v _
    apply (ends_display hb true v).bind
    intro shown _
    split
    · exact (hbody item (item :: overlays)).bind fun _ _ => ih.bind fun _ _ => .pure trivial
    · exact ih

private theorem ends_expandSection {head : Section} (hb : Bears E env head.binding)
    {body : ScopeId → List ScopeId → Run φ String}
    (hbody : ∀ scope overlays, Ends E (fun _ => True) (body scope overlays)) (scope : ScopeId)
    (overlays : List ScopeId) :
    Ends E (fun _ => True) (expandSection env head body scope overlays) := by
  apply (ends_resolve hb scope overlays).bind
  intro r _
  cases r with
  | none =>
    apply (ends_missing hb).bind
    intro _ _
    split
    · exact .pure trivial
    · exact hbody scope overlays
  | some r =>
    dsimp only
    split
    · exact (hbody scope overlays).bind fun _ _ =>
        (ends_passThrough hb _ _).bind fun _ _ => .pure trivial
    · split
      · split
        · split
          · exact hbody scope overlays
          · exact .pure trivial
        · exact (ends_innerScope r).bind fun inner _ =>
            (ends_expandItems hb hbody inner overlays _).bind fun _ _ => .pure trivial
      · apply (ends_display hb head.inclusive (r.value.getD .null)).bind
        intro shown _
        split
        · exact (ends_innerScope r).bind fun inner _ => hbody inner _
        · exact .pure trivial

mutual

private theorem ends_expandNode (hinc : BearsInclusions E env inc) : (node : Node) →
    ∀ (scope : ScopeId) (overlays : List ScopeId), BearsNode E env node →
    Ends E (fun _ => True) (expandNode env inc scope overlays node)
  | .text _, _, _, _ | .inclusion _, _, _, _ | .tag _, _, _, _ => by
    rw [expandNode]
    · exact .pure trivial
    all_goals simp
  | .block head body, scope, overlays, hn => by
    have hbody : ∀ scope overlays, Ends E (fun _ => True)
        (expandNodes env inc scope overlays body >>= fun pieces =>
          settleLevel env inc scope overlays (body.zip pieces)) := by
      intro scope overlays
      exact (ends_expandNodes hinc body scope overlays hn.2).bind fun pieces _ =>
        ends_settleLevel hinc scope overlays hn.2 pieces
    rw [expandNode]
    exact (ends_expandSection hn.1 hbody scope overlays).bind fun _ _ => .pure trivial

private theorem ends_expandNodes (hinc : BearsInclusions E env inc) : (nodes : List Node) →
    ∀ (scope : ScopeId) (overlays : List ScopeId), BearsNodes E env nodes →
    Ends E (fun _ => True) (expandNodes env inc scope overlays nodes)
  | [], _, _, _ => by
    rw [expandNodes]
    exact .pure trivial
  | node :: nodes, scope, overlays, hn => by
    rw [expandNodes]
    exact (ends_expandNode hinc node scope overlays hn.1).bind fun _ _ =>
      (ends_expandNodes hinc nodes scope overlays hn.2).bind fun _ _ => .pure trivial

end

private theorem ends_renderNodes (hinc : BearsInclusions E env inc) (top : ScopeId)
    {nodes : List Node}
    (hn : BearsNodes E env nodes) :
    Ends E (fun _ => True) (renderNodes env inc top nodes) :=
  (ends_stageNodes hinc nodes top true [] hn).bind fun staged hs =>
    (ends_expandNodes hinc staged top [] hs).bind fun pieces _ =>
      ends_settleLevel hinc top [] hs pieces

end Passes

/-- Whatever happens in a tree of its own, the run around it goes on. -/
private theorem ends_nested (E : TemplateError → Prop) (tree : ScopeTree φ) (body : Run φ String) :
    Ends E (fun _ => True) (nested tree body) := by
  intro s
  simp only [nested]
  cases body ⟨tree, s.calls⟩ <;> trivial

private theorem ends_included (E : TemplateError → Prop) (env : Env φ) (levels : Nat)
    (i : Inclusion)
    (template : Template) (start : ScopeId × ScopeTree φ) :
    Ends E (fun _ => True) (included env levels i template start) := by
  apply (ends_nested E start.2 _).bind
  intro text _
  cases text with
  | none => exact .pure trivial
  | some text =>
    dsimp only
    split
    · exact .pure trivial
    · exact .pure trivial

/-- An included template ends a render with its own errors only. -/
private theorem ends_includeText {E : TemplateError → Prop} {env : Env φ} (levels : Nat)
    {i : Inclusion}
    (scope : ScopeId) (hi : BearsInclusion E env i) :
    Ends E (fun _ => True) (includeText env levels i scope) := by
  cases hl : env.templates.lookup i.key.text with
  | none =>
    rw [includeText_none hl, notThere]
    split
    · rename_i strict
      exact .throw (hi _ (.missing strict))
    · exact .pure trivial
  | some template =>
    cases levels with
    | zero =>
      rw [includeText_zero hl]
      exact .pure trivial
    | succ levels =>
      have hfails : Fails E (env.policy i.raw) := fun strict message => hi _ (.failed strict message)
      rw [includeText_succ hl]
      apply Ends.look
      intro t
      split
      · exact (ends_value hfails scope).bind fun v _ => .look fun t' =>
          ends_included E env levels i template _
      · exact ends_included E env levels i template _

mutual

theorem bearsNode_fault (env : Env φ) : (node : Node) → ∀ {nodes : List Node}, node ∈ nodes →
    BearsNode (Node.Fault env.settings nodes) env node
  | .text _, _, _ => trivial
  | .tag _, _, mem => fun _ fault => .tag mem fault
  | .inclusion _, _, mem => fun _ fault => .inclusion mem fault
  | .block _ body, _, mem => by
    refine ⟨fun _ fault => .head mem fault, ?_⟩
    have hbody := bearsNodes_fault env body (List.Subset.refl body)
    exact hbody.imp (fun _ h e he => .inside mem (h e he)) (fun _ h e he => .inside mem (h e he))
      (fun _ h e he => .inside mem (h e he)) body

/-- The errors of all parts of a template are errors of the template. -/
theorem bearsNodes_fault (env : Env φ) : (nodes : List Node) → ∀ {more : List Node}, nodes ⊆ more →
    BearsNodes (Node.Fault env.settings more) env nodes
  | [], _, _ => trivial
  | node :: nodes, _, hsub => by
    obtain ⟨hnode, hnodes⟩ := List.cons_subset.1 hsub
    exact ⟨bearsNode_fault env node hnode, bearsNodes_fault env nodes hnodes⟩

end

private theorem ends_render (env : Env φ) (template : Template) :
    Ends (Node.Fault env.settings template.nodes) (fun _ => True) (render env template) :=
  ends_renderNodes (fun _ scope hi => ends_includeText maxPartialDepth scope hi) ScopeTree.root
    (bearsNodes_fault env template.nodes (List.Subset.refl _))

/-- **The error surface of a render.** An error is one that the settings let through, and is about a
tag of the template itself. An included template only ever fails for its own tag, whatever happens
inside it. -/
theorem render_error {env : Env φ} {template : Template} {s s' : Session φ} {e : TemplateError}
    (h : render env template s = .error e s') :
    e.Allowed env.settings ∧ (∃ raw ∈ Node.allRaws template.nodes, e.raw? = some raw) ∧
      Node.Fault env.settings template.nodes e ∧
      (env.settings.errorOnMissingTags = false → env.settings.errorOnFuncFailure = false →
        ∃ message raw, e = .functionChain message raw) ∧
      ∀ levels i scope s₁ e₁ s₂, includeText env levels i scope s₁ = .error e₁ s₂ →
        Inclusion.Fault env.settings i e₁ := by
  have hfault : Node.Fault env.settings template.nodes e := by
    have := ends_render env template s
    rwa [h] at this
  obtain ⟨hallowed, hraw⟩ := hfault.about
  refine ⟨hallowed, hraw, hfault, ?_, ?_⟩
  · intro htags hfuncs
    cases e with
    | functionChain message raw => exact ⟨message, raw, rfl⟩
    | missingBinding => cases htags.symm.trans hallowed
    | missingPartial => cases htags.symm.trans hallowed
    | functionFailed => cases hfuncs.symm.trans hallowed
    | _ => exact hallowed.elim
  · intro levels i scope s₁ e₁ s₂ h₁
    have hends : Ends (Inclusion.Fault env.settings i) (fun _ => True)
        (includeText env levels i scope) := ends_includeText levels scope fun _ he => he
    have hfault₁ := hends s₁
    rwa [h₁] at hfault₁

end Run

namespace FailsTwice

def env : Env Unit where
  host := ⟨fun _ _ _ _ => .error "broken"⟩
  settings := { Settings.default with errorOnFuncFailure := true }
  numbers := Number.specFormatter
  templates := [("p", ⟨[.tag ⟨"{{.f}}", none, .ofPath "f" true, [], none, false⟩], .default⟩)]

def data : Value Unit := .record [("f", .function ())]

def template : Template where
  nodes := [.inclusion ⟨"{{>p}}", .ofPath "p" false, none, false⟩,
    .tag ⟨"{{f}}", none, .ofPath "f" false, [], none, false⟩]
  delimiters := .default

end FailsTwice

open FailsTwice in
/-- The error is that of the tag outside. -/
theorem Run.render_error_outside : ∃ s' : Session Unit,
    render env template (.start data) = .error (.functionFailed "broken" "{{f}}") s' ∧
      ∃ raw ∈ ["{{>p}}", "{{f}}"],
        (TemplateError.functionFailed "broken" "{{f}}").raw? = some raw := by
  have hrun : (match render env template (.start data) with
      | .ok _ _ => none
      | .error e _ => some e) = some (.functionFailed "broken" "{{f}}") := by decide +kernel
  split at hrun
  · cases hrun
  · rename_i e s' h
    cases hrun
    exact ⟨s', h, (render_error h).2.1⟩

end TextTemplate
