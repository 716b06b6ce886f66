import TextTemplate.Proofs.Inclusions

/-!
From the steps of a render to renders. Runs are put together from steps of the tree, calls of
functions, errors, and runs on trees of their own. A property that these have, and that sequencing
keeps, is a property of everything a render does.
-/
namespace TextTemplate
variable {φ : Type}

/-- A property of runs that the steps of renders have, and that sequencing and nesting keep. -/
structure Compositional (host : Host φ) (P : (α : Type) → Run φ α → Prop) : Prop where
  pure : ∀ {α : Type} (a : α), P α (Pure.pure a)
  throw : ∀ {α : Type} (e : TemplateError), P α (MonadExcept.throw e)
  bind : ∀ {α β : Type} {m : Run φ α} {f : α → Run φ β}, P α m → (∀ a, P β (f a)) → P β (m >>= f)
  step : ∀ {α : Type} (g : ScopeTree φ → α × ScopeTree φ), P α (Run.onTree g)
  evaluate : ∀ policy f context root, P (Value φ) (Run.evaluate host policy f context root)
  nested : ∀ tree {body : Run φ String}, P String body → P (Option String) (Run.nested tree body)

namespace Compositional

variable {P : (α : Type) → Run φ α → Prop}

section Scopes

variable {host : Host φ} (h : Compositional host P) (policy : FailurePolicy)
include h

theorem look {α : Type} {f : ScopeTree φ → Run φ α} (hf : ∀ t, P α (f t)) : P α (Run.tree >>= f) :=
  h.bind (h.step fun t => (t, t)) hf

theorem force (id : ScopeId) : P Unit (Run.force host policy id) := by
  refine h.look fun t => ?_
  split
  · exact h.pure _
  · exact h.bind (h.evaluate ..) fun v => h.step fun _ => ((), t.settle id v)

theorem value (id : ScopeId) : P (Value φ) (Run.value host policy id) :=
  h.bind (h.force policy id) fun _ => h.look fun _ => h.pure _

theorem field (id : ScopeId) (key : String) (skipCache : Bool) :
    P (Option ScopeId) (Run.field host policy id key skipCache) :=
  h.bind (h.force policy id) fun _ => h.step _

theorem item (id : ScopeId) (index : Nat) : P ScopeId (Run.item host policy id index) := by
  refine h.look fun t => ?_
  split
  · exact h.pure _
  · dsimp only
    split
    · exact h.bind (h.pure _) fun _ => h.step _
    · exact h.bind (h.value policy id) fun _ => h.step _

theorem descend (target joined : String) (segments : List String) (id : ScopeId) :
    P (Option ScopeId) (Run.descend host policy target joined segments id) := by
  induction segments generalizing id joined with
  | nil => exact h.pure _
  | cons segment segments ih =>
    rw [Run.descend]
    refine h.bind (h.field policy id _ true) fun child => ?_
    cases child with
    | none => exact ih _ id
    | some child =>
      dsimp only
      split
      · exact h.pure _
      · refine h.look fun t => ?_
        split
        · exact h.pure _
        · exact ih _ child

theorem search (id : ScopeId) (key : Key) : P (Option ScopeId) (Run.search host policy id key) := by
  rw [Run.search]
  refine h.look fun t => ?_
  split
  · dsimp only
    split
    · exact h.pure _
    · split
      · exact h.pure _
      · split
        · exact h.pure _
        · exact h.descend policy _ _ _ id
  · split
    · exact h.pure _
    · exact h.descend policy _ _ _ _

theorem findScope (scope : ScopeId) (overlays : List ScopeId) (key : Key) :
    P (Option ScopeId) (Run.findScope host policy scope overlays key) := by
  refine h.look fun t => ?_
  split
  · exact h.search policy _ key
  · exact h.search policy scope key

theorem findChain (scope : ScopeId) (overlays : List ScopeId) (links : List Link) :
    P (List (ScopeId × φ)) (Run.findChain host policy scope overlays links) := by
  induction links with
  | nil => exact h.pure _
  | cons link links ih =>
    refine h.bind (h.findScope policy scope overlays link.key) fun found => ?_
    cases found with
    | none => exact h.throw _
    | some id =>
      refine h.look fun t => ?_
      split
      · exact h.throw _
      · exact h.bind ih fun _ => h.pure _

end Scopes

variable {env : Env φ} (h : Compositional env.host P)
include h

theorem passThrough (policy : FailurePolicy) (steps : List (φ × Link)) (v : Value φ) :
    P (Value φ) (Run.passThrough env policy steps v) := by
  induction steps generalizing v with
  | nil => exact h.pure _
  | cons step steps ih => exact h.look fun t => h.bind (h.evaluate ..) fun w => ih _

theorem resolve (b : Binding) (scope : ScopeId) (overlays : List ScopeId) :
    P (Option (Resolution φ)) (Run.resolve env b scope overlays) := by
  refine h.bind (h.findScope _ scope overlays b.key) fun found => ?_
  cases found with
  | none => exact h.pure _
  | some found =>
    dsimp only
    split
    · exact h.bind (h.value _ found) fun _ => h.pure _
    · refine h.bind (h.findChain _ scope overlays b.links) fun chain => ?_
      split
      · exact h.pure _
      · exact h.bind (h.value _ found) fun v => h.bind (h.passThrough _ _ _) fun _ => h.pure _

theorem innerScope (r : Resolution φ) : P ScopeId (Run.innerScope r) := by
  rw [Run.innerScope]
  split
  · exact h.pure _
  · exact h.step _

theorem missing (raw : String) : P Unit (Run.missing env raw) := by
  rw [Run.missing]
  split
  · exact h.throw _
  · exact h.pure _

theorem display (inclusive : Bool) (v : Value φ) (raw : String) :
    P Bool (Run.display env inclusive v raw) := by
  rw [Run.display]
  split
  · exact h.look fun t => h.bind (h.evaluate ..) fun _ => h.pure _
  · exact h.pure _
  · exact h.pure _

variable {inc : Inclusion → ScopeId → Run φ String}

mutual

theorem stageNode (hinc : ∀ i scope, P String (inc i scope)) :
    (node : Node) → ∀ (scope : ScopeId) (inScope : Bool) (waiting : List ScopeId), P (List Node)
      (TextTemplate.stageNode env inc scope inScope waiting node)
  | .text text, scope, inScope, waiting => by
    rw [TextTemplate.stageNode]
    exact h.pure _
  | .inclusion i, scope, inScope, waiting => by
    rw [TextTemplate.stageNode]
    split
    · exact h.pure _
    · exact h.bind (hinc i scope) fun _ => h.pure _
  | .tag tag, scope, inScope, waiting => by
    rw [TextTemplate.stageNode]
    refine h.look fun t => ?_
    split
    · exact h.pure _
    · refine h.bind (h.resolve tag.binding scope []) fun r => ?_
      cases r with
      | some r => exact h.pure _
      | none =>
        dsimp only
        split
        · exact h.bind (h.missing tag.raw) fun _ => h.pure _
        · exact h.pure _
  | .block head body, scope, inScope, waiting => by
    rw [TextTemplate.stageNode]
    refine h.look fun t => ?_
    split
    · exact h.pure _
    · refine h.bind (h.resolve head.binding scope []) fun r => ?_
      cases r with
      | none =>
        dsimp only
        split
        · refine h.bind (h.missing head.raw) fun _ => ?_
          split
          · exact h.pure _
          · exact stageNodes hinc body scope inScope waiting
        · exact h.pure _
      | some r =>
        refine h.look fun t => ?_
        dsimp only
        split
        · exact h.bind (stageNodes hinc body scope inScope _) fun _ => h.pure _
        · split
          · split
            · split
              · exact stageNodes hinc body scope inScope waiting
              · exact h.pure _
            · split
              · exact h.pure _
              · exact h.bind (h.innerScope r) fun inner =>
                  h.bind (stageNodes hinc body scope false _) fun _ => h.pure _
          · refine h.bind (h.display _ _ _) fun shown => ?_
            split
            · exact h.bind (h.innerScope r) fun inner => stageNodes hinc body inner true waiting
            · exact h.pure _

theorem stageNodes (hinc : ∀ i scope, P String (inc i scope)) :
    (nodes : List Node) → ∀ (scope : ScopeId) (inScope : Bool) (waiting : List ScopeId),
    P (List Node) (TextTemplate.stageNodes env inc scope inScope waiting nodes)
  | [], scope, inScope, waiting => by
    rw [TextTemplate.stageNodes]
    exact h.pure _
  | node :: nodes, scope, inScope, waiting => by
    rw [TextTemplate.stageNodes]
    exact h.bind (stageNode hinc node scope inScope waiting) fun _ =>
      h.bind (stageNodes hinc nodes scope inScope waiting) fun _ => h.pure _

end

theorem settleNode (hinc : ∀ i scope, P String (inc i scope)) (scope : ScopeId)
    (overlays : List ScopeId) (expanded : Option String) (node : Node) :
    P String (TextTemplate.settleNode env inc scope overlays expanded node) := by
  cases node with
  | text text => exact h.pure _
  | block head body => exact h.pure _
  | inclusion i => exact hinc i scope
  | tag tag =>
    refine h.bind (h.resolve tag.binding scope overlays) fun r => ?_
    cases r with
    | some r => exact h.pure _
    | none => exact h.bind (h.missing tag.raw) fun _ => h.pure _

theorem settleLevel (hinc : ∀ i scope, P String (inc i scope)) (scope : ScopeId)
    (overlays : List ScopeId) (level : List (Node × Option String)) :
    P String (TextTemplate.settleLevel env inc scope overlays level) := by
  induction level with
  | nil => exact h.pure _
  | cons n rest ih =>
    exact h.bind (h.settleNode hinc scope overlays n.2 n.1) fun _ => h.bind ih fun _ => h.pure _

theorem expandItems {body : ScopeId → List ScopeId → Run φ String}
    (hbody : ∀ scope overlays, P String (body scope overlays)) (raw : String) (scope : ScopeId)
    (overlays : List ScopeId) (indices : List Nat) :
    P (List String) (TextTemplate.expandItems env raw body scope overlays indices) := by
  induction indices with
  | nil => exact h.pure _
  | cons index rest ih =>
    refine h.bind (h.item _ scope index) fun item => h.bind (h.value _ item) fun v =>
      h.bind (h.display true v raw) fun shown => ?_
    split
    · exact h.bind (hbody item (item :: overlays)) fun _ => h.bind ih fun _ => h.pure _
    · exact ih

theorem expandSection {body : ScopeId → List ScopeId → Run φ String}
    (hbody : ∀ scope overlays, P String (body scope overlays)) (head : Section) (scope : ScopeId)
    (overlays : List ScopeId) :
    P String (TextTemplate.expandSection env head body scope overlays) := by
  refine h.bind (h.resolve head.binding scope overlays) fun r => ?_
  cases r with
  | none =>
    refine h.bind (h.missing head.raw) fun _ => ?_
    split
    · exact h.pure _
    · exact hbody scope overlays
  | some r =>
    dsimp only
    split
    · exact h.bind (hbody scope overlays) fun _ => h.bind (h.passThrough _ _ _) fun _ => h.pure _
    · split
      · split
        · split
          · exact hbody scope overlays
          · exact h.pure _
        · exact h.bind (h.innerScope r) fun inner =>
            h.bind (h.expandItems hbody head.raw inner overlays _) fun _ => h.pure _
      · refine h.bind (h.display _ _ _) fun shown => ?_
        split
        · exact h.bind (h.innerScope r) fun inner => hbody inner _
        · exact h.pure _

mutual

theorem expandNode (hinc : ∀ i scope, P String (inc i scope)) :
    (node : Node) → ∀ (scope : ScopeId) (overlays : List ScopeId),
    P (Option String) (TextTemplate.expandNode env inc scope overlays node)
  | .text _, _, _ | .inclusion _, _, _ | .tag _, _, _ => by
    rw [TextTemplate.expandNode]
    · exact h.pure _
    all_goals simp
  | .block head body, scope, overlays => by
    rw [TextTemplate.expandNode]
    refine h.bind (h.expandSection (fun scope overlays => ?_) head scope overlays) fun _ => h.pure _
    exact h.bind (expandNodes hinc body scope overlays) fun pieces =>
      h.settleLevel hinc scope overlays (body.zip pieces)

theorem expandNodes (hinc : ∀ i scope, P String (inc i scope)) :
    (nodes : List Node) → ∀ (scope : ScopeId) (overlays : List ScopeId),
    P (List (Option String)) (TextTemplate.expandNodes env inc scope overlays nodes)
  | [], _, _ => by
    rw [TextTemplate.expandNodes]
    exact h.pure _
  | node :: nodes, scope, overlays => by
    rw [TextTemplate.expandNodes]
    exact h.bind (expandNode hinc node scope overlays) fun _ =>
      h.bind (expandNodes hinc nodes scope overlays) fun _ => h.pure _

end

theorem renderNodes (hinc : ∀ i scope, P String (inc i scope)) (top : ScopeId)
    (nodes : List Node) :
    P String (Run.renderNodes env inc top nodes) :=
  h.bind (h.stageNodes hinc nodes top true []) fun staged =>
    h.bind (h.expandNodes hinc staged top []) fun pieces =>
      h.settleLevel hinc top [] (staged.zip pieces)

theorem notThere (i : Inclusion) : P String (Run.notThere env i) := by
  rw [Run.notThere]
  split
  · exact h.throw _
  · exact h.pure _

theorem included {levels : Nat} (hinc : ∀ i scope, P String (Run.includeText env levels i scope))
    (i : Inclusion) (template : Template) (start : ScopeId × ScopeTree φ) :
    P String (Run.included env levels i template start) := by
  refine h.bind (h.nested start.2 (h.renderNodes hinc start.1 template.nodes)) fun text => ?_
  split
  · exact h.pure _
  · split
    · exact h.pure _
    · exact h.pure _

theorem includeText (levels : Nat) (i : Inclusion) (scope : ScopeId) :
    P String (Run.includeText env levels i scope) := by
  induction levels generalizing i scope with
  | zero =>
    cases hl : env.templates.lookup i.key.text with
    | none => exact Run.includeText_none hl 0 scope ▸ h.notThere i
    | some template => exact Run.includeText_zero hl scope ▸ h.pure _
  | succ levels ih =>
    cases hl : env.templates.lookup i.key.text with
    | none => exact Run.includeText_none hl _ scope ▸ h.notThere i
    | some template =>
      rw [Run.includeText_succ hl]
      refine h.look fun t => ?_
      split
      · exact h.bind (h.value _ scope) fun v => h.look fun t' => h.included ih i template _
      · exact h.included ih i template _

end Compositional

end TextTemplate
