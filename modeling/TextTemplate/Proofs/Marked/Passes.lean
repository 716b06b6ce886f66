import TextTemplate.Proofs.Marked.Marking
import TextTemplate.Proofs.Reworded

/-!
Both passes over marked nodes do what they do over the nodes as they are when everything is escaped:
the first leaves the same nodes, with marks, and the second comes to the same text.
-/
namespace TextTemplate
variable {φ : Type}

open TemplateError (Reworded)

/-- A tag without links, and errors that may be about the marked tag instead. -/
structure Tag.Marks (rename : Tag → String) (E : TemplateError → TemplateError → Prop)
    (tag : Tag) : Prop where
  links : tag.links = []
  errors : ∀ e e', Reworded tag.raw (rename tag) e e' → E e e'

/-- What one first pass leaves is what the other leaves, with marks. -/
def Left (rename : Tag → String) (E : TemplateError → TemplateError → Prop)
    (nodes nodes' : List Node) : Prop :=
  nodes' = Node.allMarked rename nodes ∧ Node.EveryTag (Tag.Marks rename E) nodes

section Passes

variable {rename : Tag → String} {env : Env φ} {E : TemplateError → TemplateError → Prop}
  {inc inc' : Inclusion → ScopeId → Run φ String}

theorem Left.keep (node : Node) (h : Node.EveryTag (Tag.Marks rename E) [node]) :
    Alike E (Left rename E) (pure [node] : Run φ _) (pure [node.marked rename]) :=
  .pure ⟨by rw [Node.allMarked, Node.allMarked], h⟩

theorem Left.drop : Alike E (Left rename E) (pure [] : Run φ _) (pure []) := .pure ⟨rfl, trivial⟩

theorem Left.shown (text : String) :
    Alike E (Left rename E) (pure [.text text] : Run φ _) (pure [.text text]) :=
  .pure ⟨rfl, trivial, trivial⟩

theorem Tag.Marks.resolve {tag : Tag} (h : tag.Marks rename E) (scope : ScopeId)
    (overlays : List ScopeId) :
    Alike E Eq (Run.resolve env tag.binding scope overlays)
      (Run.resolve (env.marked rename) (tag.marked rename).binding scope overlays) := by
  rw [resolve_marked]
  exact (alike_resolve env tag.binding (tag.marked rename).binding rfl h.links h.links scope
    overlays).mono h.errors

theorem Tag.Marks.missing {tag : Tag} (h : tag.Marks rename E) :
    Alike E Eq (Run.missing env tag.raw)
      (Run.missing (env.marked rename) (tag.marked rename).raw) :=
  (alike_missing env).mono h.errors

variable (hall : env.settings.escapeAll = true) (hE : ∀ e, E e e)

/-- Included templates that come to the same wherever they are included from. -/
abbrev AlikeInclusions (E : TemplateError → TemplateError → Prop)
    (inc inc' : Inclusion → ScopeId → Run φ String) : Prop :=
  ∀ i scope, Alike E Eq (inc i scope) (inc' i scope)

include hE in
/-- The first pass over a section whose body is staged alike. -/
private theorem alike_stageBlock {head : Section} {body : List Node} (scope : ScopeId)
    (inScope : Bool)
    (waiting : List ScopeId) (hmarks : Node.EveryTag (Tag.Marks rename E) body)
    (hbody : ∀ scope inScope waiting, Alike E (Left rename E)
      (stageNodes env inc scope inScope waiting body)
      (stageNodes (env.marked rename) inc' scope inScope waiting (Node.allMarked rename body))) :
    Alike E (Left rename E) (stageNode env inc scope inScope waiting (.block head body))
      (stageNode (env.marked rename) inc' scope inScope waiting
        (.block head (Node.allMarked rename body))) := by
  have hkeep : Alike E (Left rename E) (pure [.block head body] : Run φ _)
      (pure [.block head (Node.allMarked rename body)]) :=
    Left.keep (.block head body) ⟨⟨trivial, hmarks⟩, trivial⟩
  have hcopy : ∀ (copy : Section) staged staged', Left rename E staged staged' →
      Alike E (Left rename E) (pure [.block copy staged] : Run φ _) (pure [.block copy staged']) := by
    rintro copy staged _ ⟨rfl, hstaged⟩
    exact Left.keep (.block copy staged) ⟨⟨trivial, hstaged⟩, trivial⟩
  rw [stageNode, stageNode]
  refine .look fun t => ?_
  split
  · exact hkeep
  · rw [resolve_marked]
    refine .step hE _ fun r => ?_
    cases r with
    | none =>
      dsimp only
      split
      · refine .step hE (Run.missing env head.raw) fun _ => ?_
        split
        · exact Left.drop
        · exact hbody _ _ _
      · exact hkeep
    | some r =>
      refine .look fun t => ?_
      dsimp only
      split
      · exact (hbody _ _ _).bind (hcopy _)
      · split
        · split
          · split
            · exact hbody _ _ _
            · exact Left.drop
          · split
            · exact Left.drop
            · exact .step hE _ fun inner => (hbody _ _ _).bind (hcopy _)
        · refine .step hE (Run.display env head.inclusive (r.value.getD .null) head.raw)
            fun shown => ?_
          split
          · exact .step hE _ fun inner => hbody _ _ _
          · exact Left.drop

mutual

private theorem alike_stageNode (hall : env.settings.escapeAll = true) (hE : ∀ e, E e e)
    (hinc : AlikeInclusions E inc inc') : (node : Node) → (scope : ScopeId) → (inScope : Bool) →
    (waiting : List ScopeId) → Node.EveryTag (Tag.Marks rename E) [node] →
    Alike E (Left rename E) (stageNode env inc scope inScope waiting node)
      (stageNode (env.marked rename) inc' scope inScope waiting (node.marked rename))
  | .text text, scope, inScope, waiting, _ => by
    rw [Node.marked, stageNode, stageNode]
    exact Left.shown text
  | .inclusion i, scope, inScope, waiting, h => by
    rw [Node.marked, stageNode, stageNode]
    split
    · exact Left.keep _ h
    · exact (hinc i scope).andThen Left.shown
  | .tag tag, scope, inScope, waiting, h => by
    have htag : tag.Marks rename E := h.1
    rw [Node.marked, stageNode, stageNode]
    refine .look fun t => ?_
    change Alike E _ (if mustWait t tag.binding inScope waiting then _ else _)
      (if mustWait t tag.binding inScope waiting then _ else _)
    split
    · exact Left.keep _ h
    · refine (htag.resolve scope []).andThen fun r => ?_
      cases r with
      | some r =>
        have htext : (r.value.map (tagText (env.marked rename) (tag.marked rename))) =
            r.value.map (tagText env tag) :=
          congrArg (r.value.map ·) (funext (tagText_marked rename env hall htag.links))
        dsimp only
        rw [htext]
        exact Left.shown _
      | none =>
        have hkey : (tag.marked rename).key = tag.key := rfl
        dsimp only
        rw [hkey]
        split
        · exact htag.missing.andThen fun _ => Left.drop
        · exact Left.keep _ h
  | .block head body, scope, inScope, waiting, h => by
    rw [Node.marked]
    exact alike_stageBlock hE scope inScope waiting h.1.2 fun scope inScope waiting =>
      alike_stageNodes hall hE hinc body scope inScope waiting h.1.2

private theorem alike_stageNodes (hall : env.settings.escapeAll = true) (hE : ∀ e, E e e)
    (hinc : AlikeInclusions E inc inc') : (nodes : List Node) → (scope : ScopeId) →
    (inScope : Bool) → (waiting : List ScopeId) → Node.EveryTag (Tag.Marks rename E) nodes →
    Alike E (Left rename E) (stageNodes env inc scope inScope waiting nodes)
      (stageNodes (env.marked rename) inc' scope inScope waiting (Node.allMarked rename nodes))
  | [], scope, inScope, waiting, _ => by
    rw [Node.allMarked, stageNodes, stageNodes]
    exact Left.drop
  | node :: nodes, scope, inScope, waiting, h => by
    rw [Node.allMarked, stageNodes, stageNodes]
    refine (alike_stageNode hall hE hinc node scope inScope waiting ⟨h.1, trivial⟩).bind
      fun a a' ha => ?_
    refine (alike_stageNodes hall hE hinc nodes scope inScope waiting h.2).bind fun b b' hb => ?_
    obtain ⟨rfl, ha⟩ := ha
    obtain ⟨rfl, hb⟩ := hb
    exact .pure ⟨(Node.allMarked_append rename a b).symm, Node.everyOf_append.2 ⟨ha, hb⟩⟩

end

include hall in
private theorem alike_settleNode (hinc : AlikeInclusions E inc inc') (scope : ScopeId)
    (overlays : List ScopeId) (expanded : Option String) {node : Node}
    (h : Node.EveryTag (Tag.Marks rename E) [node]) :
    Alike E Eq (settleNode env inc scope overlays expanded node)
      (settleNode (env.marked rename) inc' scope overlays expanded (node.marked rename)) := by
  cases node with
  | text text => exact .pure rfl
  | block head body => exact .pure rfl
  | inclusion i => exact hinc i scope
  | tag tag =>
    have htag : tag.Marks rename E := h.1
    refine (htag.resolve scope overlays).andThen fun r => ?_
    cases r with
    | none => exact htag.missing.andThen fun _ => .pure rfl
    | some r =>
      have htext : (r.value.map (tagText (env.marked rename) (tag.marked rename))) =
          r.value.map (tagText env tag) :=
        congrArg (r.value.map ·) (funext (tagText_marked rename env hall htag.links))
      exact .pure (by rw [htext])

include hall in
private theorem alike_settleLevel (hinc : AlikeInclusions E inc inc') (scope : ScopeId)
    (overlays : List ScopeId) {nodes : List Node} (pieces : List (Option String))
    (h : Node.EveryTag (Tag.Marks rename E) nodes) :
    Alike E Eq (settleLevel env inc scope overlays (nodes.zip pieces))
      (settleLevel (env.marked rename) inc' scope overlays
        ((Node.allMarked rename nodes).zip pieces)) := by
  induction nodes generalizing pieces with
  | nil => exact .pure rfl
  | cons node nodes ih =>
    cases pieces with
    | nil => exact .pure rfl
    | cons piece pieces =>
      rw [Node.allMarked, List.zip_cons_cons, List.zip_cons_cons, settleLevel, settleLevel]
      exact (alike_settleNode hall hinc scope overlays piece ⟨h.1, trivial⟩).andThen fun text =>
        (ih pieces h.2).andThen fun rest => .pure rfl

/-- Bodies of one section that are rendered alike wherever that is. -/
abbrev AlikeBodies (E : TemplateError → TemplateError → Prop)
    (body body' : ScopeId → List ScopeId → Run φ String) : Prop :=
  ∀ scope overlays, Alike E Eq (body scope overlays) (body' scope overlays)

include hE in
private theorem alike_expandItems {body body' : ScopeId → List ScopeId → Run φ String}
    (hbody : AlikeBodies E body body') (raw : String) (scope : ScopeId) (overlays : List ScopeId)
    (indices : List Nat) :
    Alike E Eq (expandItems env raw body scope overlays indices)
      (expandItems (env.marked rename) raw body' scope overlays indices) := by
  induction indices with
  | nil => exact .pure rfl
  | cons index rest ih =>
    rw [expandItems, expandItems]
    refine .step hE (Run.item env.host (env.policy raw) scope index) fun item => ?_
    refine .step hE (Run.value env.host (env.policy raw) item) fun v => ?_
    refine .step hE (Run.display env true v raw) fun shown => ?_
    split
    · exact (hbody _ _).andThen fun text => ih.andThen fun texts => .pure rfl
    · exact ih

include hE in
private theorem alike_expandSection {body body' : ScopeId → List ScopeId → Run φ String}
    (hbody : AlikeBodies E body body') (head : Section) (scope : ScopeId)
    (overlays : List ScopeId) :
    Alike E Eq (expandSection env head body scope overlays)
      (expandSection (env.marked rename) head body' scope overlays) := by
  rw [expandSection, expandSection, resolve_marked]
  refine .step hE _ fun r => ?_
  cases r with
  | none =>
    refine .step hE (Run.missing env head.raw) fun _ => ?_
    split
    · exact .pure rfl
    · exact hbody _ _
  | some r =>
    dsimp only
    split
    · refine (hbody _ _).andThen fun text => ?_
      rw [passThrough_marked]
      exact .step hE _ fun v => .pure rfl
    · split
      · split
        · split
          · exact hbody _ _
          · exact .pure rfl
        · refine .step hE _ fun inner => ?_
          exact (alike_expandItems hE hbody head.raw inner overlays _).andThen fun texts => .pure rfl
      · refine .step hE (Run.display env head.inclusive (r.value.getD .null) head.raw)
          fun shown => ?_
        split
        · exact .step hE _ fun inner => hbody _ _
        · exact .pure rfl

mutual

private theorem alike_expandNode (hall : env.settings.escapeAll = true) (hE : ∀ e, E e e)
    (hinc : AlikeInclusions E inc inc') : (node : Node) → (scope : ScopeId) →
    (overlays : List ScopeId) → Node.EveryTag (Tag.Marks rename E) [node] →
    Alike E Eq (expandNode env inc scope overlays node)
      (expandNode (env.marked rename) inc' scope overlays (node.marked rename))
  | .text _, _, _, _ | .inclusion _, _, _, _ | .tag _, _, _, _ => by
    rw [Node.marked, expandNode, expandNode]
    · exact .pure rfl
    all_goals simp
  | .block head body, scope, overlays, h => by
    rw [Node.marked, expandNode, expandNode]
    refine (alike_expandSection hE (fun scope overlays => ?_) head scope overlays).andThen
      fun text => .pure rfl
    exact (alike_expandNodes hall hE hinc body scope overlays h.1.2).andThen fun pieces =>
      alike_settleLevel hall hinc scope overlays pieces h.1.2

private theorem alike_expandNodes (hall : env.settings.escapeAll = true) (hE : ∀ e, E e e)
    (hinc : AlikeInclusions E inc inc') : (nodes : List Node) → (scope : ScopeId) →
    (overlays : List ScopeId) → Node.EveryTag (Tag.Marks rename E) nodes →
    Alike E Eq (expandNodes env inc scope overlays nodes)
      (expandNodes (env.marked rename) inc' scope overlays (Node.allMarked rename nodes))
  | [], _, _, _ => by
    rw [Node.allMarked, expandNodes, expandNodes]
    exact .pure rfl
  | node :: nodes, scope, overlays, h => by
    rw [Node.allMarked, expandNodes, expandNodes]
    exact (alike_expandNode hall hE hinc node scope overlays ⟨h.1, trivial⟩).andThen fun piece =>
      (alike_expandNodes hall hE hinc nodes scope overlays h.2).andThen fun pieces => .pure rfl

end

include hall hE in
theorem alike_renderNodes (hinc : AlikeInclusions E inc inc') (top : ScopeId) {nodes : List Node}
    (h : Node.EveryTag (Tag.Marks rename E) nodes) :
    Alike E Eq (Run.renderNodes env inc top nodes)
      (Run.renderNodes (env.marked rename) inc' top (Node.allMarked rename nodes)) := by
  refine (alike_stageNodes hall hE hinc nodes top true [] h).bind fun staged staged' hstaged => ?_
  obtain ⟨rfl, hstaged⟩ := hstaged
  exact (alike_expandNodes hall hE hinc staged top [] hstaged).andThen fun pieces =>
    alike_settleLevel hall hinc top [] pieces hstaged

end Passes

end TextTemplate
