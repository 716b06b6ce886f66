import TextTemplate.Proofs.Course.Ends
import TextTemplate.Proofs.Scope.Isolation

/-!
Rendering returns. Both passes go down the nodes they are given, over as many items as there are, and
every level of inclusion leaves one level less. So there are steps enough for every render, and with
these it comes to what it comes to when the limits are built in.
-/
namespace TextTemplate
variable {φ : Type}

/-- The scopes of a resolved binding are there. -/
structure Resolution.InRange (t : ScopeTree φ) (r : Resolution φ) : Prop where
  scope : r.scope < t.scopes.size
  chain : ∀ x ∈ r.chain, x.1 < t.scopes.size

theorem Resolution.InRange.mono {t t' : ScopeTree φ} {r : Resolution φ} (h : r.InRange t)
    (he : t.Extends t') : r.InRange t' :=
  ⟨he.lt h.scope, fun x hx => he.lt (h.chain x hx)⟩

theorem ScopeTree.newAt_lt (data : Value φ) (path : String) (v : Value φ) :
    (newAt data path v).1 < (newAt data path v).2.scopes.size := by
  by_cases hpath : path = ""
  · rw [hpath, newAt_root]
    exact Nat.zero_lt_one
  · obtain ⟨hid, -, hgrows, -, -⟩ := newAt_grows data v hpath
    rw [hid, hgrows.size]
    exact Nat.one_lt_two

namespace Run

variable {env : Env φ} {s : Session φ}

private theorem leads_missing (hw : s.tree.WellFormed) (raw : String) :
    Leads (fun s => s.tree.WellFormed) s (missing env raw) fun _ _ => True := by
  rw [missing]
  split
  · exact .throw hw
  · exact .pure hw trivial

private theorem leads_display (hw : s.tree.WellFormed) (inclusive : Bool) (v : Value φ)
    (raw : String) :
    Leads (fun s => s.tree.WellFormed) s (display env inclusive v raw) fun _ _ => True := by
  rw [display]
  cases v.get? displayKey with
  | none => exact .pure hw trivial
  | some flag =>
    cases flag with
    | function f =>
      refine .look ?_
      exact (Leads.evaluate (R := fun _ _ => True) (fun _ => hw) fun _ _ _ => trivial).bind
        fun _ _ _ hw' _ => .pure hw' trivial
    | _ => exact .pure hw trivial

private theorem leads_notThere (hw : s.tree.WellFormed) (i : Inclusion) :
    Leads (fun s => s.tree.WellFormed) s (notThere env i) fun _ _ => True := by
  rw [notThere]
  split
  · exact .bind (.throw hw : Leads _ s _ fun _ _ => True) fun _ _ _ hw' _ => .pure hw' trivial
  · exact .pure hw trivial

private theorem leads_innerScope (hw : s.tree.WellFormed) {r : Resolution φ}
    (hr : r.InRange s.tree) :
    Leads (fun s => s.tree.WellFormed) s (innerScope r) fun id s' => id < s'.tree.scopes.size := by
  rw [innerScope]
  split
  · exact .pure hw hr.scope
  · refine leads_overlay upheld_wellFormed hw hr.scope _ _ fun _ ha => ha.wellFormed hw hr.scope ?_
    intro c hc
    obtain ⟨x, hx, rfl⟩ := List.mem_map.1 hc
    exact hr.chain x hx

end Run

namespace Course

section Passes

variable {env : Env φ} {s : Session φ} {scope : ScopeId} {overlays : List ScopeId}

private theorem comes_value {host : Host φ} {policy : FailurePolicy} {id : ScopeId}
    (hw : s.tree.WellFormed)
    (hid : id < s.tree.scopes.size) :
    Comes s (value host policy id) (Run.value host policy id) fun _ _ => True :=
  ⟨(Run.leads_value upheld_wellFormed hw hid).weaken fun _ _ _ _ _ => trivial, ends_value hw hid⟩

private theorem comes_item {host : Host φ} {policy : FailurePolicy} {id : ScopeId}
    (hw : s.tree.WellFormed)
    (hid : id < s.tree.scopes.size) (index : Nat) :
    Comes s (item host policy id index) (Run.item host policy id index) fun o s' =>
      o < s'.tree.scopes.size :=
  ⟨Run.leads_item upheld_wellFormed hw hid index, ends_item hw hid index⟩

private theorem comes_passThrough (hw : s.tree.WellFormed) (policy : FailurePolicy)
    (steps : List (φ × Link))
    (v : Value φ) :
    Comes s (passThrough env policy steps v) (Run.passThrough env policy steps v) fun _ _ => True :=
  ⟨(Run.leads_passThrough (I := fun s => s.tree.WellFormed) (fun _ => hw) _ _ _).weaken
    fun _ _ _ _ _ => trivial, ends_passThrough steps v⟩

private theorem comes_missing (hw : s.tree.WellFormed) (raw : String) :
    Comes s (ofRun (Run.missing env raw)) (Run.missing env raw) fun _ _ => True :=
  .ofRun (Run.leads_missing hw raw)

private theorem comes_display (hw : s.tree.WellFormed) (inclusive : Bool) (v : Value φ)
    (raw : String) :
    Comes s (display env inclusive v raw) (Run.display env inclusive v raw) fun _ _ => True :=
  ⟨Run.leads_display hw inclusive v raw, ends_display inclusive v raw⟩

private theorem comes_innerScope (hw : s.tree.WellFormed) {r : Resolution φ}
    (hr : r.InRange s.tree) :
    Comes s (ofRun (Run.innerScope r)) (Run.innerScope r) fun id s' => id < s'.tree.scopes.size :=
  .ofRun (Run.leads_innerScope hw hr)

private theorem comes_resolve (hw : s.tree.WellFormed) (hscope : scope < s.tree.scopes.size)
    (hover : ∀ o ∈ overlays, o < s.tree.scopes.size) (b : Binding) :
    Comes s (resolve env b scope overlays) (Run.resolve env b scope overlays) fun r s' =>
      ∀ x ∈ r, x.InRange s'.tree :=
  ⟨(Run.leads_resolve upheld_wellFormed hw hscope hover b).weaken fun _ _ _ _ hr x hx =>
    ⟨(hr x hx).scope, fun y hy => ((hr x hx).chain y hy).1⟩, ends_resolve hw hscope hover b⟩

/-- The templates that are included are walked through as they are run. -/
def Includes (walk : Inclusion → ScopeId → Walk φ String) (run : Inclusion → ScopeId → Run φ String) :
    Prop :=
  ∀ i scope s, s.tree.WellFormed → scope < s.tree.scopes.size →
    Comes s (walk i scope) (run i scope) fun _ _ => True

variable {walk : Inclusion → ScopeId → Walk φ String} {run : Inclusion → ScopeId → Run φ String}

/-- The first pass over these nodes is walked through as it is run. -/
def Stages (env : Env φ) (walk : Inclusion → ScopeId → Walk φ String)
    (run : Inclusion → ScopeId → Run φ String) (nodes : List Node) : Prop :=
  ∀ {s : Session φ} {scope : ScopeId}, s.tree.WellFormed → scope < s.tree.scopes.size →
    ∀ (inScope : Bool) (waiting : List ScopeId),
      Comes s (stageNodes env walk scope inScope waiting nodes)
        (TextTemplate.stageNodes env run scope inScope waiting nodes) fun _ _ => True

section Block

variable {head : Section} {body : List Node} (hbody : Stages env walk run body)
include hbody

/-- What the first pass leaves of a section whose body waits for the second. -/
theorem Stages.copied (head : Section) (hw : s.tree.WellFormed) (hscope : scope < s.tree.scopes.size)
    (inScope : Bool) (waiting : List ScopeId) :
    Comes s (do return [Node.block head (← stageNodes env walk scope inScope waiting body)])
      (do return [Node.block head (← TextTemplate.stageNodes env run scope inScope waiting body)])
      fun _ _ => True :=
  (hbody hw hscope inScope waiting).bind fun _ _ _ hw' _ => .pure hw' trivial

private theorem comes_stageBlock (hw : s.tree.WellFormed) (hscope : scope < s.tree.scopes.size)
    (inScope : Bool) (waiting : List ScopeId) :
    Comes s (stageNode env walk scope inScope waiting (.block head body))
      (TextTemplate.stageNode env run scope inScope waiting (.block head body))
      fun _ _ => True := by
  rw [stageNode, TextTemplate.stageNode]
  refine .look ?_
  split
  · exact .pure hw trivial
  · refine (comes_resolve hw hscope (by simp) head.binding).bind fun r s' he hw' hr => ?_
    have hscope' := he.lt hscope
    cases r with
    | none =>
      dsimp only
      split
      · refine (comes_missing hw' head.raw).bind fun _ s'' he' hw'' _ => ?_
        split
        · exact .pure hw'' trivial
        · exact hbody hw'' (he'.lt hscope') inScope waiting
      · exact .pure hw' trivial
    | some r =>
      replace hr := hr r rfl
      refine .look ?_
      dsimp only
      split
      · exact hbody.copied _ hw' hscope' inScope (r.scope :: waiting)
      · split
        · split
          · split
            · exact hbody hw' hscope' inScope waiting
            · exact .pure hw' trivial
          · split
            · exact .pure hw' trivial
            · exact (comes_innerScope hw' hr).bind fun inner s'' he' hw'' _ =>
                hbody.copied _ hw'' (he'.lt hscope') false (inner :: waiting)
        · refine (comes_display hw' head.inclusive _ head.raw).bind fun shown s'' he' hw'' _ => ?_
          split
          · exact (comes_innerScope hw'' (hr.mono he')).bind fun inner s₃ _ hw₃ hinner =>
              hbody hw₃ hinner true waiting
          · exact .pure hw'' trivial

end Block

mutual

private theorem comes_stageNode (hinc : Includes walk run) {s : Session φ} {scope : ScopeId}
    (hw : s.tree.WellFormed) (hscope : scope < s.tree.scopes.size) (inScope : Bool)
    (waiting : List ScopeId) (node : Node) :
    Comes s (stageNode env walk scope inScope waiting node)
      (TextTemplate.stageNode env run scope inScope waiting node) fun _ _ => True := by
  cases node with
  | text text =>
    rw [stageNode, TextTemplate.stageNode]
    exact .pure hw trivial
  | inclusion i =>
    rw [stageNode, TextTemplate.stageNode]
    split
    · exact .pure hw trivial
    · exact (hinc i scope s hw hscope).bind fun _ _ _ hw' _ => .pure hw' trivial
  | tag tag =>
    rw [stageNode, TextTemplate.stageNode]
    refine .look ?_
    split
    · exact .pure hw trivial
    · refine (comes_resolve hw hscope (by simp) tag.binding).bind fun r s' _ hw' _ => ?_
      cases r with
      | some r => exact .pure hw' trivial
      | none =>
        dsimp only
        split
        · exact (comes_missing hw' tag.raw).bind fun _ _ _ hw'' _ => .pure hw'' trivial
        · exact .pure hw' trivial
  | block head body =>
    exact comes_stageBlock (fun hw hscope inScope waiting =>
      comes_stageNodes hinc hw hscope inScope waiting body) hw hscope inScope waiting

private theorem comes_stageNodes (hinc : Includes walk run) {s : Session φ} {scope : ScopeId}
    (hw : s.tree.WellFormed) (hscope : scope < s.tree.scopes.size) (inScope : Bool)
    (waiting : List ScopeId) (nodes : List Node) :
    Comes s (stageNodes env walk scope inScope waiting nodes)
      (TextTemplate.stageNodes env run scope inScope waiting nodes) fun _ _ => True := by
  cases nodes with
  | nil =>
    rw [stageNodes, TextTemplate.stageNodes]
    exact .pure hw trivial
  | cons node nodes =>
    rw [stageNodes, TextTemplate.stageNodes]
    exact (comes_stageNode hinc hw hscope inScope waiting node).bind fun _ _ he hw' _ =>
      (comes_stageNodes hinc hw' (he.lt hscope) inScope waiting nodes).bind fun _ _ _ hw'' _ =>
        .pure hw'' trivial

end

section SecondPass

variable (hinc : Includes walk run)
include hinc

private theorem comes_settleNode (hw : s.tree.WellFormed) (hscope : scope < s.tree.scopes.size)
    (hover : ∀ o ∈ overlays, o < s.tree.scopes.size) (expanded : Option String) (node : Node) :
    Comes s (settleNode env walk scope overlays expanded node)
      (TextTemplate.settleNode env run scope overlays expanded node) fun _ _ => True := by
  cases node with
  | text | block => exact .pure hw trivial
  | inclusion i => exact hinc i scope s hw hscope
  | tag tag =>
    refine (comes_resolve hw hscope hover tag.binding).bind fun r _ _ hw' _ => ?_
    cases r with
    | some r => exact .pure hw' trivial
    | none => exact (comes_missing hw' tag.raw).bind fun _ _ _ hw'' _ => .pure hw'' trivial

private theorem comes_settleLevel (hw : s.tree.WellFormed) (hscope : scope < s.tree.scopes.size)
    (hover : ∀ o ∈ overlays, o < s.tree.scopes.size) (level : List (Node × Option String)) :
    Comes s (settleLevel env walk scope overlays level)
      (TextTemplate.settleLevel env run scope overlays level) fun _ _ => True := by
  induction level generalizing s with
  | nil => exact .pure hw trivial
  | cons piece rest ih =>
    exact (comes_settleNode hinc hw hscope hover piece.2 piece.1).bind fun _ _ he hw' _ =>
      (ih hw' (he.lt hscope) fun o ho => he.lt (hover o ho)).bind fun _ _ _ hw'' _ =>
        .pure hw'' trivial

end SecondPass

/-- The bodies of a section are walked through as they are run. -/
def Bodies (walk : ScopeId → List ScopeId → Walk φ String)
    (run : ScopeId → List ScopeId → Run φ String) : Prop :=
  ∀ scope overlays s, s.tree.WellFormed → scope < s.tree.scopes.size →
    (∀ o ∈ overlays, o < s.tree.scopes.size) →
    Comes s (walk scope overlays) (run scope overlays) fun _ _ => True

section Sections

variable {body : ScopeId → List ScopeId → Walk φ String}
  {body' : ScopeId → List ScopeId → Run φ String}
  (hbody : Bodies body body')
include hbody

private theorem comes_expandItems (hw : s.tree.WellFormed) (raw : String)
    (hscope : scope < s.tree.scopes.size) (hover : ∀ o ∈ overlays, o < s.tree.scopes.size)
    (indices : List Nat) :
    Comes s (expandItems env raw body scope overlays indices)
      (TextTemplate.expandItems env raw body' scope overlays indices) fun _ _ => True := by
  induction indices generalizing s with
  | nil => exact .pure hw trivial
  | cons index rest ih =>
    refine (comes_item hw hscope index).bind fun item s₁ he₁ hw₁ hitem => ?_
    refine (comes_value hw₁ hitem).bind fun v s₂ he₂ hw₂ _ => ?_
    refine (comes_display hw₂ true v raw).bind fun shown s₃ he₃ hw₃ _ => ?_
    have he : s.tree.Extends s₃.tree := (he₁.trans he₂).trans he₃
    have hscope₃ := he.lt hscope
    have hover₃ : ∀ o ∈ overlays, o < s₃.tree.scopes.size := fun o ho => he.lt (hover o ho)
    split
    · have hinner : ∀ o ∈ item :: overlays, o < s₃.tree.scopes.size :=
        List.forall_mem_cons.2 ⟨(he₂.trans he₃).lt hitem, hover₃⟩
      refine (hbody item (item :: overlays) s₃ hw₃ (hinner item List.mem_cons_self) hinner).bind
        fun _ s₄ he₄ hw₄ _ => ?_
      exact (ih hw₄ (he₄.lt hscope₃) fun o ho => he₄.lt (hover₃ o ho)).bind fun _ _ _ hw₅ _ =>
        .pure hw₅ trivial
    · exact ih hw₃ hscope₃ hover₃

private theorem comes_expandSection (hw : s.tree.WellFormed) (head : Section)
    (hscope : scope < s.tree.scopes.size) (hover : ∀ o ∈ overlays, o < s.tree.scopes.size) :
    Comes s (expandSection env head body scope overlays)
      (TextTemplate.expandSection env head body' scope overlays) fun _ _ => True := by
  refine (comes_resolve hw hscope hover head.binding).bind fun r s₁ he₁ hw₁ hr => ?_
  have hscope₁ := he₁.lt hscope
  have hover₁ : ∀ o ∈ overlays, o < s₁.tree.scopes.size := fun o ho => he₁.lt (hover o ho)
  cases r with
  | none =>
    refine (comes_missing hw₁ head.raw).bind fun _ s₂ he₂ hw₂ _ => ?_
    split
    · exact .pure hw₂ trivial
    · exact hbody scope overlays s₂ hw₂ (he₂.lt hscope₁) fun o ho => he₂.lt (hover₁ o ho)
  | some r =>
    replace hr := hr r rfl
    dsimp only
    split
    · refine (hbody scope overlays s₁ hw₁ hscope₁ hover₁).bind fun text s₂ _ hw₂ _ => ?_
      exact (comes_passThrough hw₂ _ _ _).bind fun _ _ _ hw₃ _ => .pure hw₃ trivial
    · split
      · split
        · split
          · exact hbody scope overlays s₁ hw₁ hscope₁ hover₁
          · exact .pure hw₁ trivial
        · refine (comes_innerScope hw₁ hr).bind fun inner s₂ he₂ hw₂ hinner => ?_
          have hover₂ : ∀ o ∈ overlays, o < s₂.tree.scopes.size := fun o ho => he₂.lt (hover₁ o ho)
          exact (comes_expandItems hbody hw₂ head.raw hinner hover₂ _).bind fun _ _ _ hw₃ _ =>
            .pure hw₃ trivial
      · refine (comes_display hw₁ head.inclusive _ head.raw).bind fun shown s₂ he₂ hw₂ _ => ?_
        split
        · refine (comes_innerScope hw₂ (hr.mono he₂)).bind fun inner s₃ he₃ hw₃ hinner => ?_
          have hover₃ : ∀ o ∈ overlays, o < s₃.tree.scopes.size := fun o ho =>
            (he₂.trans he₃).lt (hover₁ o ho)
          refine hbody inner _ s₃ hw₃ hinner ?_
          split
          · exact List.forall_mem_cons.2 ⟨hinner, hover₃⟩
          · exact hover₃
        · exact .pure hw₂ trivial

end Sections

mutual

private theorem comes_expandNode (hinc : Includes walk run) {s : Session φ} {scope : ScopeId}
    {overlays : List ScopeId} (hw : s.tree.WellFormed) (hscope : scope < s.tree.scopes.size)
    (hover : ∀ o ∈ overlays, o < s.tree.scopes.size) (node : Node) :
    Comes s (expandNode env walk scope overlays node)
      (TextTemplate.expandNode env run scope overlays node) fun _ _ => True := by
  cases node with
  | block head body =>
    rw [expandNode, TextTemplate.expandNode]
    have hbody : Bodies (fun scope overlays => do
          let pieces ← expandNodes env walk scope overlays body
          settleLevel env walk scope overlays (body.zip pieces))
        (fun scope overlays => do
          let pieces ← TextTemplate.expandNodes env run scope overlays body
          TextTemplate.settleLevel env run scope overlays (body.zip pieces)) :=
      fun scope overlays s hw hscope hover =>
        (comes_expandNodes hinc hw hscope hover body).bind fun _ _ he hw' _ =>
          comes_settleLevel hinc hw' (he.lt hscope) (fun o ho => he.lt (hover o ho)) _
    exact (comes_expandSection hbody hw head hscope hover).bind fun _ _ _ hw' _ => .pure hw' trivial
  | _ =>
    rw [expandNode, TextTemplate.expandNode]
    · exact .pure hw trivial
    all_goals
      intro _ _ h
      cases h

private theorem comes_expandNodes (hinc : Includes walk run) {s : Session φ} {scope : ScopeId}
    {overlays : List ScopeId} (hw : s.tree.WellFormed) (hscope : scope < s.tree.scopes.size)
    (hover : ∀ o ∈ overlays, o < s.tree.scopes.size) (nodes : List Node) :
    Comes s (expandNodes env walk scope overlays nodes)
      (TextTemplate.expandNodes env run scope overlays nodes) fun _ _ => True := by
  cases nodes with
  | nil =>
    rw [expandNodes, TextTemplate.expandNodes]
    exact .pure hw trivial
  | cons node nodes =>
    rw [expandNodes, TextTemplate.expandNodes]
    exact (comes_expandNode hinc hw hscope hover node).bind fun _ _ he hw' _ =>
      (comes_expandNodes hinc hw' (he.lt hscope) (fun o ho => he.lt (hover o ho)) nodes).bind
        fun _ _ _ hw'' _ => .pure hw'' trivial

end

private theorem comes_renderNodes (hinc : Includes walk run) (hw : s.tree.WellFormed)
    (htop : scope < s.tree.scopes.size) (nodes : List Node) :
    Comes s (renderNodes env walk scope nodes) (Run.renderNodes env run scope nodes)
      fun _ _ => True := by
  refine (comes_stageNodes hinc hw htop true [] nodes).bind fun staged _ he hw' _ => ?_
  exact (comes_expandNodes hinc hw' (he.lt htop) (by simp) staged).bind fun _ _ he' hw'' _ =>
    comes_settleLevel hinc hw'' ((he.trans he').lt htop) (by simp) _

/-- What a template does that is rendered in a tree of its own, no one sees but in the calls. -/
private theorem comes_nested (hw : s.tree.WellFormed) {depth : Nat}
    (hdepth : depth ≤ maxPartialDepth)
    {tree : ScopeTree φ} {body : Walk φ String} {body' : Run φ String}
    (h : Ends ⟨tree, s.calls⟩ body body') :
    Comes s (nested depth tree body) (Run.nested tree body') fun _ _ => True := by
  obtain ⟨enough, log, hlog, h⟩ := h
  have hrun : (Run.nested tree body').ending s = .ok (body'.ending ⟨tree, s.calls⟩).toOption ∧
      (Run.nested tree body').left s = ⟨s.tree, (body'.left ⟨tree, s.calls⟩).calls⟩ := by
    simp only [Run.nested, Run.ending, Run.left]
    cases body' ⟨tree, s.calls⟩ <;> exact ⟨rfl, rfl⟩
  refine ⟨?_, enough, log ++ [.entered depth], fun e he => ?_, fun steps hsteps earlier => ?_⟩
  · rw [Leads, Run.nested]
    cases body' ⟨tree, s.calls⟩ <;> exact ⟨.refl _, hw, trivial⟩
  · rcases List.mem_append.1 he with he | he
    · exact hlog e he
    · rw [List.mem_singleton.1 he]
      exact hdepth
  · rw [Walk.ends, nested, h steps hsteps, hrun.1, hrun.2, List.append_assoc]
    rfl

/-- Steps beyond those that reach the greatest depth make no difference. -/
theorem includeText_steps {steps steps' depth : Nat} (h : maxPartialDepth < depth + steps)
    (h' : maxPartialDepth < depth + steps') (hdepth : depth ≤ maxPartialDepth) :
    includeText env steps depth = includeText env steps' depth := by
  induction steps generalizing steps' depth with
  | zero => omega
  | succ steps ih =>
    obtain ⟨steps', rfl⟩ : ∃ n, steps' = n + 1 := Nat.exists_eq_add_one.2 (by omega)
    funext i scope
    rw [includeText, includeText]
    by_cases hmax : maxPartialDepth ≤ depth
    · simp only [if_pos hmax]
    · have hsame : includeText env steps (depth + 1) = includeText env steps' (depth + 1) :=
        ih (by omega) (by omega) (by omega)
      rw [hsame]

private theorem comes_includeText {levels steps depth : Nat} (hsteps : levels < steps)
    (hdepth : depth + levels = maxPartialDepth) :
    Includes (includeText env steps depth) (Run.includeText env levels) := by
  intro i scope s hw hscope
  obtain ⟨steps, rfl⟩ : ∃ n, steps = n + 1 := Nat.exists_eq_add_one.2 (by omega)
  rw [includeText]
  cases hl : env.templates.lookup i.key.text with
  | none =>
    rw [Run.includeText_none hl]
    exact .ofRun (Run.leads_notThere hw i)
  | some template =>
    cases levels with
    | zero =>
      rw [Run.includeText_zero hl]
      simp only [if_pos (show maxPartialDepth ≤ depth by omega)]
      exact .pure hw trivial
    | succ levels =>
      have hincluded : ∀ start s', s'.tree.WellFormed → start.2.WellFormed →
          start.1 < start.2.scopes.size → Comes s'
            (included env (includeText env steps (depth + 1)) (depth + 1) i template start)
            (Run.included env levels i template start) fun _ _ => True := by
        intro start s' hw' hstart htop
        -- one level deeper, one level less is left
        have hinc : Includes (includeText env steps (depth + 1)) (Run.includeText env levels) :=
          comes_includeText (by omega) (by omega)
        refine (comes_nested hw' (by omega) (comes_renderNodes hinc hstart htop _).ends).bind
          fun text _ _ hw'' _ => ?_
        cases text with
        | none => exact .pure hw'' trivial
        | some text =>
          dsimp only
          split <;> exact .pure hw'' trivial
      rw [Run.includeText_succ hl]
      simp only [if_neg (show ¬ maxPartialDepth ≤ depth by omega)]
      refine .look ?_
      split
      · exact (comes_value hw hscope).bind fun v s' _ hw' _ => .look (hincluded _ s' hw'
          (ScopeTree.wellFormed_newAt _ _ _) (ScopeTree.newAt_lt _ _ _))
      · exact hincluded _ s hw (ScopeTree.wellFormed_new _) Nat.zero_lt_one

theorem ends_render (hw : s.tree.WellFormed) (template : Template) :
    Ends s (render env template) (Run.render env template) := by
  have hinc : Includes (includeText env (maxPartialDepth + 1) 0)
      (Run.includeText env maxPartialDepth) :=
    comes_includeText (Nat.lt_succ_self _) (Nat.zero_add _)
  obtain ⟨enough, log, hlog, h⟩ := (comes_renderNodes hinc hw hw.top_lt template.nodes).ends
  refine ⟨max enough (maxPartialDepth + 1), log, hlog, fun steps hsteps earlier => ?_⟩
  -- the steps given are those of the inclusions too
  have hsame : includeText env steps 0 = includeText env (maxPartialDepth + 1) 0 :=
    includeText_steps (by omega) (by omega) (Nat.zero_le _)
  rw [Run.render, ← h steps (Nat.le_trans (Nat.le_max_left _ _) hsteps) earlier, ← hsame]
  rfl

end Passes

end Course

/-- **Rendering returns.** Whatever the template, the data, the options and the templates to include,
there is a number of steps in which the render ends, with what it comes to. On its way every function
is evaluated in no more calls than the limit, and no template is rendered deeper than the limit. In no
tree that can come about is a scope above itself, so climbing from a scope ends. At the greatest depth
including a template gives no text, unless it is missing and that is an error. -/
theorem Template.renderOn_ends (host : Host φ) (template : Template) (data : Value φ)
    (options : RenderOptions) :
    (∃ enough log, (∀ e ∈ log, e.Bounded) ∧ ∀ steps ≥ enough,
      template.renderOn host data options steps = some (template.render host data options, log)) ∧
    (∀ s, Reachable host (fun _ => True) (fun _ => True) s → s.tree.Acyclic ∧
      ∀ target segments id useCache, ∀ steps > id, s.tree.climbOn target segments steps id useCache =
        some (s.tree.climb target segments id useCache)) ∧
    ∀ (env : Env φ) (steps : Nat) (i : Inclusion) (scope : ScopeId),
      Course.includeText env (steps + 1) maxPartialDepth i scope =
        if (env.templates.lookup i.key.text).isNone && env.settings.errorOnMissingTags then
          throw (.missingPartial i.key.text i.raw)
        else return "" := by
  refine ⟨?_, fun s hs => ?_, fun env steps i scope => ?_⟩
  · simp only [renderOn, render]
    cases options.compilePartials with
    | error e => exact ⟨0, [], by simp, fun _ _ => rfl⟩
    | ok templates =>
      have hends : Course.Ends (.start data)
          (Course.render ⟨host, options.toSettings, options.numbers, templates⟩ template)
          (Run.render ⟨host, options.toSettings, options.numbers, templates⟩ template) :=
        Course.ends_render (ScopeTree.wellFormed_new data) template
      obtain ⟨enough, log, hlog, h⟩ := hends
      refine ⟨enough, log, hlog, fun steps hsteps => ?_⟩
      dsimp only
      rw [h steps hsteps, List.append_nil, Option.map_some, Run.ending, Run.left]
      generalize (Run.render _ template : Run φ String) (.start data) = r
      cases r <;> rfl
  · exact ⟨hs.wellFormed.acyclic, fun target segments id useCache steps hsteps =>
      ScopeTree.climbOn_eq hs.wellFormed target segments hsteps useCache⟩
  · rw [Course.includeText]
    cases env.templates.lookup i.key.text with
    | none =>
      simp only [Run.notThere, Option.isNone_none, Bool.true_and]
      split <;> rfl
    | some template => simp

namespace DeepInclusion

def host : Host Unit := ⟨fun _ _ _ _ => .error "fails"⟩

/-- Includes the template with the given number. -/
def including (n : Nat) : String := "\x7b\x7b>p" ++ Nat.repr n ++ "\x7d\x7d"

def top : Template := ⟨[.inclusion ⟨including 1, .ofPath "p1" false, none, false⟩], .default⟩

/-- Every template includes the next one, down to the greatest depth, where the last one is. What is
missing is an error. -/
def options (last : String) : RenderOptions :=
  { RenderOptions.default with
    errorOnMissingTags := true
    partials := (List.range (maxPartialDepth - 1)).map (fun n =>
        ("p" ++ Nat.repr (n + 1), .source (including (n + 2)))) ++
      [("p" ++ Nat.repr maxPartialDepth, .source last)] }

/-- The depths of the renders that were noted. -/
def depths (log : List (Course.Event Unit)) : List Nat :=
  log.filterMap fun e => match e with
    | .entered depth => some depth
    | _ => none

end DeepInclusion

open DeepInclusion in
/-- At the greatest depth a missing template is an error still: the text around it is lost, which is
there when nothing stands in its place. -/
theorem Template.renderOn_ends_missing :
    ((top.renderOn host .null (options "a\x7b\x7b>gone\x7d\x7db") (maxPartialDepth + 1)).map fun r =>
      (r.1.result.toOption, depths r.2)) = some (some "", (List.range' 1 maxPartialDepth).reverse) ∧
    (top.render host .null (options "a\x7b\x7b>gone\x7d\x7db")).result.toOption = some "" ∧
    (top.render host .null (options "ab")).result.toOption = some "ab" := by
  refine ⟨?_, ?_, ?_⟩ <;> decide +kernel

end TextTemplate
