import TextTemplate.Proofs.Guarded
import TextTemplate.Proofs.Runs

/-!
Sections that stay hidden. As long as a guarded render does not stop, it ends as the render does,
whatever stands in the marked sections: what is in a hidden section makes no difference to the
result, nor to the calls made on the way.
-/
namespace TextTemplate
variable {φ α β : Type}

namespace Guarded

/-- Unless the guarded run stops, the other run ends the same way in the same session, with a result
that is related to its own. -/
def Agrees (R : α → β → Prop) (g : Run φ α) (m : Run φ β) : Prop :=
  ∀ s, match g s with
    | .ok a s' => ∃ b, m s = .ok b s' ∧ R a b
    | .error e s' => e = shown ∨ m s = .error e s'

namespace Agrees

variable {γ δ : Type} {R : α → β → Prop} {Q : γ → δ → Prop}

theorem pure {a : α} {b : β} (h : R a b) :
    Agrees R (Pure.pure a : Run φ α) (Pure.pure b) := fun _ => ⟨b, rfl, h⟩

/-- A guarded run that stops agrees with everything. -/
theorem shown (m : Run φ β) : Agrees R (throw Guarded.shown) m := fun _ => .inl rfl

theorem refl (m : Run φ α) : Agrees Eq m m := by
  intro s
  cases m s with
  | ok a s' => exact ⟨a, rfl, rfl⟩
  | error e s' => exact .inr rfl

theorem bind {g : Run φ α} {m : Run φ β} {k : α → Run φ γ} {l : β → Run φ δ}
    (h : Agrees R g m) (hk : ∀ a b, R a b → Agrees Q (k a) (l b)) :
    Agrees Q (g >>= k) (m >>= l) := by
  intro s
  have hs := h s
  simp only [Bind.bind, EStateM.bind]
  cases hg : g s with
  | ok a s' =>
    rw [hg] at hs
    obtain ⟨b, hm, hab⟩ := hs
    rw [hm]
    exact hk a b hab s'
  | error e s' =>
    rw [hg] at hs
    refine hs.imp id fun hm => ?_
    rw [hm]

/-- Both runs take the same first step. -/
theorem step (m : Run φ α) {k : α → Run φ γ} {l : α → Run φ δ}
    (hk : ∀ a, Agrees Q (k a) (l a)) : Agrees Q (m >>= k) (m >>= l) :=
  (refl m).bind fun a b hab => by
    subst hab
    exact hk a

theorem andThen {g m : Run φ α} {k l : α → Run φ γ} (h : Agrees Eq g m)
    (hk : ∀ a, Agrees Eq (k a) (l a)) : Agrees Eq (g >>= k) (m >>= l) :=
  h.bind fun a b hab => by
    subst hab
    exact hk a

/-- Only the other run looks at the tree. -/
theorem look {g : Run φ α} {m : ScopeTree φ → Run φ β} (h : ∀ t, Agrees R g (m t)) :
    Agrees R g (Run.tree >>= m) := fun s => h s.tree s

/-- A guarded run that does not stop ends as the other one does. -/
theorem eq_of_not_shown {g m : Run φ α} (h : Agrees Eq g m) {s : Session φ}
    (hs : ∀ s', g s ≠ .error Guarded.shown s') : m s = g s := by
  have hgm := h s
  cases hg : g s with
  | ok a s' =>
    rw [hg] at hgm
    obtain ⟨b, hm, rfl⟩ := hgm
    exact hm
  | error e s' =>
    rw [hg] at hgm
    rcases hgm with rfl | hm
    · exact absurd hg (hs s')
    · exact hm

end Agrees

section Including

variable (env : Env φ) (templates : List (String × Template))

theorem passThrough_including (policy : FailurePolicy) (steps : List (φ × Link)) (v : Value φ) :
    Run.passThrough (env.including templates) policy steps v =
      Run.passThrough env policy steps v := by
  induction steps generalizing v with
  | nil => rfl
  | cons step steps ih =>
    simp only [Run.passThrough, ih]
    rfl

theorem resolve_including (b : Binding) (scope : ScopeId) (overlays : List ScopeId) :
    Run.resolve (env.including templates) b scope overlays = Run.resolve env b scope overlays := by
  simp only [Run.resolve, passThrough_including]
  rfl

end Including

section Passes

variable {env : Env φ} {templates : List (String × Template)}
  {inc inc' : Inclusion → ScopeId → Run φ String} {f : List Node → List Node}

theorem stageNode_block (scope : ScopeId) (inScope : Bool) (waiting : List ScopeId) (head : Section)
    (body : List Node) :
    TextTemplate.stageNode env inc scope inScope waiting (.block head body) =
      stageSection env head scope inScope waiting (.block head body) .block
        fun scope inScope waiting =>
          TextTemplate.stageNodes env inc scope inScope waiting body := by
  rw [TextTemplate.stageNode]
  rfl

/-- What a guarded first pass leaves is what the first pass leaves, with marks. -/
abbrev Fills (f : List Node → List Node) (a : List MarkedNode) (b : List Node) : Prop :=
  MarkedNode.fillAll f a = b

private theorem agrees_stageSection {head : Section} {scope : ScopeId} {inScope : Bool}
    {waiting : List ScopeId} {keep : MarkedNode}
    {body : ScopeId → Bool → List ScopeId → Run φ (List MarkedNode)}
    {body' : ScopeId → Bool → List ScopeId → Run φ (List Node)}
    (hbody : ∀ scope inScope waiting,
      Agrees (Fills f) (body scope inScope waiting) (body' scope inScope waiting)) :
    Agrees (Fills f) (stageSection env head scope inScope waiting keep .block body)
      (stageSection (env.including templates) head scope inScope waiting (keep.fill f) .block
        body') := by
  have hkeep : Agrees (Fills f) (pure [keep] : Run φ _) (pure [keep.fill f]) := .pure rfl
  have hcopy : ∀ head' staged staged', Fills f staged staged' →
      Agrees (Fills f) (pure [.block head' staged] : Run φ _) (pure [.block head' staged']) := by
    intro head' staged staged' h
    subst h
    exact .pure (by simp [Fills, MarkedNode.fillAll, MarkedNode.fill])
  simp only [stageSection, resolve_including]
  refine .step _ fun t => ?_
  split
  · exact hkeep
  · refine .step _ fun r => ?_
    cases r with
    | none =>
      dsimp only
      split
      · refine .step _ fun _ => ?_
        split
        · exact .pure rfl
        · exact hbody _ _ _
      · exact hkeep
    | some r =>
      refine .step _ fun t => ?_
      split
      · exact (hbody _ _ _).bind (hcopy _)
      · split
        · split
          · split
            · exact hbody _ _ _
            · exact .pure rfl
          · split
            · exact .pure rfl
            · exact .step _ fun inner => (hbody _ _ _).bind (hcopy _)
        · refine .step _ fun shown => ?_
          split
          · exact .step _ fun inner => hbody _ _ _
          · exact .pure rfl

/-- A marked section that does not have to wait is dropped, or the guarded pass stops. -/
private theorem agrees_stageMarked {head : Section} {scope : ScopeId} {inScope : Bool}
    {waiting : List ScopeId} {keep : MarkedNode}
    {body' : ScopeId → Bool → List ScopeId → Run φ (List Node)} :
    Agrees (Fills f) (stageMarked env head scope inScope waiting keep)
      (stageSection (env.including templates) head scope inScope waiting (keep.fill f) .block
        body') := by
  have hkeep : Agrees (Fills f) (pure [keep] : Run φ _) (pure [keep.fill f]) := .pure rfl
  have hdrop : Agrees (Fills f) (pure [] : Run φ _) (pure []) := .pure rfl
  simp only [stageMarked, stageSection, resolve_including]
  refine .step _ fun t => ?_
  split
  · exact hkeep
  · refine .step _ fun r => ?_
    cases r with
    | none =>
      cases hmissing : head.key.inContext && inScope with
      | false => exact hkeep
      | true =>
        simp only [Option.isNone_none, Bool.not_true, Bool.and_false, Bool.false_eq_true, if_false,
          check_none, if_true]
        refine .step _ fun _ => ?_
        split
        · exact hdrop
        · exact .shown _
    | some r =>
      simp only [Option.isNone_some, Bool.false_and, Bool.false_eq_true, if_false, check_some]
      refine .look fun t => ?_
      split
      · exact .shown _
      · split
        · by_cases hsize : r.size = 0
          · cases head.inclusive with
            | true => simpa [hsize] using hdrop
            | false => simpa [hsize] using Agrees.shown _
          · cases head.inclusive with
            | true => simpa [hsize] using Agrees.shown _
            | false => simpa [hsize] using hdrop
        · refine .step _ fun b => ?_
          cases b with
          | true => exact .shown _
          | false => exact hdrop

/-- Included templates agree wherever they are included from. -/
abbrev AgreeOnInclusions (inc inc' : Inclusion → ScopeId → Run φ String) : Prop :=
  ∀ i scope, Agrees Eq (inc i scope) (inc' i scope)

mutual

private theorem agrees_stageNode (hinc : AgreeOnInclusions inc inc') : (node : MarkedNode) →
    ∀ (scope : ScopeId) (inScope : Bool) (waiting : List ScopeId),
    Agrees (Fills f) (stageNode env inc scope inScope waiting node)
      (TextTemplate.stageNode (env.including templates) inc' scope inScope waiting (node.fill f))
  | .text text, scope, inScope, waiting => by
    rw [stageNode, MarkedNode.fill, TextTemplate.stageNode]
    exact .pure rfl
  | .inclusion i, scope, inScope, waiting => by
    rw [stageNode, MarkedNode.fill, TextTemplate.stageNode]
    split
    · exact .pure rfl
    · exact (hinc i scope).bind fun a b hab => .pure (by rw [hab]; rfl)
  | .tag tag, scope, inScope, waiting => by
    rw [stageNode, MarkedNode.fill, TextTemplate.stageNode]
    refine .step _ fun t => ?_
    split
    · exact .pure rfl
    · rw [resolve_including]
      refine .step _ fun r => ?_
      cases r with
      | some r => exact .pure rfl
      | none =>
        dsimp only
        split
        · exact .step _ fun _ => .pure rfl
        · exact .pure rfl
  | .block head body, scope, inScope, waiting => by
    rw [stageNode, MarkedNode.fill, stageNode_block]
    exact agrees_stageSection fun scope inScope waiting =>
      agrees_stageNodes hinc body scope inScope waiting
  | .marked head body, scope, inScope, waiting => by
    rw [stageNode, MarkedNode.fill, stageNode_block]
    exact agrees_stageMarked

private theorem agrees_stageNodes (hinc : AgreeOnInclusions inc inc') : (nodes : List MarkedNode) →
    ∀ (scope : ScopeId) (inScope : Bool) (waiting : List ScopeId),
    Agrees (Fills f) (stageNodes env inc scope inScope waiting nodes)
      (TextTemplate.stageNodes (env.including templates) inc' scope inScope waiting
        (MarkedNode.fillAll f nodes))
  | [], scope, inScope, waiting => by
    rw [stageNodes, MarkedNode.fillAll, TextTemplate.stageNodes]
    exact .pure rfl
  | node :: nodes, scope, inScope, waiting => by
    rw [stageNodes, MarkedNode.fillAll, TextTemplate.stageNodes]
    refine (agrees_stageNode hinc node scope inScope waiting).bind fun a a' ha => ?_
    refine (agrees_stageNodes hinc nodes scope inScope waiting).bind fun b b' hb => .pure ?_
    rw [Fills, MarkedNode.fillAll_append, ha, hb]

end

private theorem agrees_settleNode (hinc : AgreeOnInclusions inc inc') (scope : ScopeId)
    (overlays : List ScopeId) (expanded : Option String) (node : MarkedNode) :
    Agrees Eq (settleNode env inc scope overlays expanded (node.fill id))
      (settleNode (env.including templates) inc' scope overlays expanded (node.fill f)) := by
  cases node with
  | text text => exact .pure rfl
  | block head body => exact .pure rfl
  | marked head body => exact .pure rfl
  | inclusion i => exact hinc i scope
  | tag tag =>
    simp only [MarkedNode.fill, settleNode, resolve_including]
    refine .step _ fun r => ?_
    cases r with
    | some r => exact .pure rfl
    | none => exact .step _ fun _ => .pure rfl

private theorem agrees_settleLevel (hinc : AgreeOnInclusions inc inc') (scope : ScopeId)
    (overlays : List ScopeId) (nodes : List MarkedNode) (pieces : List (Option String)) :
    Agrees Eq (settleLevel env inc scope overlays nodes pieces)
      (TextTemplate.settleLevel (env.including templates) inc' scope overlays
        ((MarkedNode.fillAll f nodes).zip pieces)) := by
  rw [settleLevel]
  induction nodes generalizing pieces with
  | nil => exact .pure rfl
  | cons node nodes ih =>
    cases pieces with
    | nil => exact .pure rfl
    | cons piece pieces =>
      simp only [MarkedNode.fillAll, List.zip_cons_cons, TextTemplate.settleLevel]
      exact (agrees_settleNode hinc scope overlays piece node).andThen fun text =>
        (ih pieces).andThen fun rest => .pure rfl

/-- Bodies of one section that agree wherever they are rendered. -/
abbrev AgreeOnBodies (body body' : ScopeId → List ScopeId → Run φ String) : Prop :=
  ∀ scope overlays, Agrees Eq (body scope overlays) (body' scope overlays)

private theorem agrees_expandItems {body body' : ScopeId → List ScopeId → Run φ String}
    (hbody : AgreeOnBodies body body') (raw : String) (scope : ScopeId) (overlays : List ScopeId)
    (indices : List Nat) :
    Agrees Eq (expandItems env raw body scope overlays indices)
      (expandItems (env.including templates) raw body' scope overlays indices) := by
  induction indices with
  | nil => exact .pure rfl
  | cons index rest ih =>
    simp only [expandItems]
    refine .step _ fun item => .step _ fun v => .step _ fun shown => ?_
    split
    · exact (hbody _ _).andThen fun text => ih.andThen fun texts => .pure rfl
    · exact ih

private theorem agrees_expandSection {body body' : ScopeId → List ScopeId → Run φ String}
    (hbody : AgreeOnBodies body body') (head : Section) (scope : ScopeId)
    (overlays : List ScopeId) :
    Agrees Eq (expandSection env head body scope overlays)
      (expandSection (env.including templates) head body' scope overlays) := by
  simp only [expandSection, resolve_including]
  refine .step _ fun r => ?_
  cases r with
  | none =>
    refine .step _ fun _ => ?_
    split
    · exact .pure rfl
    · exact hbody _ _
  | some r =>
    dsimp only
    split
    · refine (hbody _ _).andThen fun text => ?_
      rw [passThrough_including]
      exact .step _ fun v => .pure rfl
    · split
      · split
        · split
          · exact hbody _ _
          · exact .pure rfl
        · refine .step _ fun inner => ?_
          exact (agrees_expandItems hbody _ _ _ _).andThen fun texts => .pure rfl
      · refine .step _ fun shown => ?_
        split
        · exact .step _ fun inner => hbody _ _
        · exact .pure rfl

/-- A marked section is expanded to nothing, or the guarded pass stops. -/
private theorem agrees_expandMarked (body' : ScopeId → List ScopeId → Run φ String) (head : Section)
    (scope : ScopeId) (overlays : List ScopeId) :
    Agrees Eq (expandMarked env head scope overlays)
      (expandSection (env.including templates) head body' scope overlays) := by
  have hnothing : Agrees Eq (pure "" : Run φ _) (pure "") := .pure rfl
  simp only [expandMarked, expandSection, resolve_including]
  refine .step _ fun r => ?_
  cases r with
  | none =>
    rw [check_none]
    refine .step _ fun _ => ?_
    split
    · exact hnothing
    · exact .shown _
  | some r =>
    rw [check_some]
    dsimp only
    split
    · exact .shown _
    · split
      · rename_i hrepeating
        by_cases hsize : r.size = 0
        · cases head.inclusive with
          | true =>
            simp only [hsize, hrepeating, if_true, beq_self_eq_true, Bool.and_self, Bool.not_true,
              Bool.false_eq_true, if_false, List.range_zero]
            refine .step _ fun inner => .pure ?_
            split <;> rfl
          | false => simpa [hsize] using Agrees.shown _
        · cases head.inclusive with
          | true => simpa [hsize] using Agrees.shown _
          | false => simpa [hsize] using hnothing
      · rename_i hsingle
        refine .step _ fun b => ?_
        cases b with
        | true => exact .shown _
        | false => simpa [hsingle] using hnothing

mutual

private theorem agrees_expandNode (hinc : AgreeOnInclusions inc inc') : (node : MarkedNode) →
    ∀ (scope : ScopeId) (overlays : List ScopeId),
    Agrees Eq (expandNode env inc scope overlays node)
      (TextTemplate.expandNode (env.including templates) inc' scope overlays (node.fill f))
  | .text _, _, _ | .inclusion _, _, _ | .tag _, _, _ => by
    rw [MarkedNode.fill, expandNode, TextTemplate.expandNode]
    · exact .pure rfl
    all_goals simp
  | .block head body, scope, overlays => by
    rw [MarkedNode.fill, expandNode, TextTemplate.expandNode]
    refine (agrees_expandSection (fun scope overlays => ?_) head scope overlays).andThen
      fun text => .pure rfl
    exact (agrees_expandNodes hinc body scope overlays).andThen fun pieces =>
      agrees_settleLevel hinc scope overlays body pieces
  | .marked head body, scope, overlays => by
    rw [MarkedNode.fill, expandNode, TextTemplate.expandNode]
    exact (agrees_expandMarked _ head scope overlays).andThen fun text => .pure rfl

private theorem agrees_expandNodes (hinc : AgreeOnInclusions inc inc') : (nodes : List MarkedNode) →
    ∀ (scope : ScopeId) (overlays : List ScopeId),
    Agrees Eq (expandNodes env inc scope overlays nodes)
      (TextTemplate.expandNodes (env.including templates) inc' scope overlays
        (MarkedNode.fillAll f nodes))
  | [], _, _ => by
    rw [MarkedNode.fillAll, expandNodes, TextTemplate.expandNodes]
    exact .pure rfl
  | node :: nodes, scope, overlays => by
    rw [MarkedNode.fillAll, expandNodes, TextTemplate.expandNodes]
    exact (agrees_expandNode hinc node scope overlays).andThen fun piece =>
      (agrees_expandNodes hinc nodes scope overlays).andThen fun pieces => .pure rfl

end

private theorem agrees_renderNodes (hinc : AgreeOnInclusions inc inc') (top : ScopeId)
    (nodes : List MarkedNode) :
    Agrees Eq (renderNodes env inc top nodes)
      (Run.renderNodes (env.including templates) inc' top (MarkedNode.fillAll f nodes)) := by
  refine (agrees_stageNodes (f := f) hinc nodes top true []).bind fun staged staged' hst => ?_
  subst hst
  exact (agrees_expandNodes hinc staged top []).andThen fun pieces =>
    agrees_settleLevel hinc top [] staged pieces

end Passes

private theorem agrees_nested {body body' : Run φ String} (h : Agrees Eq body body')
    (tree : ScopeTree φ) : Agrees Eq (nested tree body) (Run.nested tree body') := by
  intro s
  have hs := h ⟨tree, s.calls⟩
  simp only [nested, Run.nested]
  cases hg : body ⟨tree, s.calls⟩ with
  | ok text inner =>
    rw [hg] at hs
    obtain ⟨b, hm, rfl⟩ := hs
    rw [hm]
    exact ⟨_, rfl, rfl⟩
  | error e inner =>
    rw [hg] at hs
    by_cases he : e = shown
    · simp only [he, if_true]
      exact .inl trivial
    · simp only [he, if_false]
      rw [hs.resolve_left he]
      exact ⟨_, rfl, rfl⟩

section Renders

variable {env : Env φ} {templates : List (String × MarkedTemplate)} {f : List Node → List Node}

private theorem agrees_includeText (levels : Nat) (i : Inclusion) (scope : ScopeId) :
    Agrees Eq (includeText env templates levels i scope)
      (Run.includeText (env.including (MarkedTemplate.fillAll f templates)) levels i scope) := by
  have hlookup := MarkedTemplate.lookup_fillAll f templates i.key.text
  cases hl : templates.lookup i.key.text with
  | none =>
    rw [hl] at hlookup
    rw [includeText, hl, Run.includeText_none hlookup]
    exact .refl _
  | some template =>
    rw [hl] at hlookup
    cases levels with
    | zero =>
      rw [includeText, hl, Run.includeText_zero hlookup]
      exact .refl _
    | succ levels =>
      have hincluded : ∀ start, Agrees Eq
          (included env i (fun top =>
            renderNodes env (includeText env templates levels) top template.nodes) start)
          (Run.included (env.including (MarkedTemplate.fillAll f templates)) levels i
            (template.fill f) start) := by
        intro start
        have hlevel : Agrees Eq
            (renderNodes env (includeText env templates levels) start.1 template.nodes)
            (Run.renderNodes (env.including (MarkedTemplate.fillAll f templates))
              (Run.includeText (env.including (MarkedTemplate.fillAll f templates)) levels)
              start.1 (MarkedNode.fillAll f template.nodes)) :=
          agrees_renderNodes (agrees_includeText levels) start.1 template.nodes
        exact (agrees_nested hlevel start.2).andThen fun text => .refl _
      rw [includeText, hl, Run.includeText_succ hlookup]
      refine .step _ fun t => ?_
      split
      · exact .step _ fun v => .step _ fun t' => hincluded _
      · exact hincluded _

private theorem agrees_render (template : MarkedTemplate) :
    Agrees Eq (render env templates template)
      (Run.render (env.including (MarkedTemplate.fillAll f templates)) (template.fill f)) :=
  agrees_renderNodes (fun i scope => agrees_includeText maxPartialDepth i scope) _ _

end Renders

end Guarded

/-- **Hidden sections are not looked into.** As long as every marked section, in the template or in
one that it includes, is hidden by its own key whenever it is reached, the template renders as it
would with nothing in the marked sections: with the same text or error, the same calls in the same
order, and the same scopes. -/
theorem Run.render_emptied {env : Env φ} {templates : List (String × MarkedTemplate)}
    {template : MarkedTemplate} {s : Session φ}
    (hidden : ∀ s', Guarded.render env templates template s ≠ .error Guarded.shown s') :
    render (env.including (MarkedTemplate.fillAll (fun _ => []) templates))
        (template.fill fun _ => []) s =
      render (env.including (MarkedTemplate.fillAll id templates)) (template.fill id) s := by
  rw [(Guarded.agrees_render template).eq_of_not_shown hidden,
    (Guarded.agrees_render template).eq_of_not_shown hidden]

namespace HiddenItems

/-- Every function gives true. -/
def env : Env Unit where
  host := ⟨fun _ _ _ _ => .ok (.bool true)⟩
  settings := Settings.default
  numbers := Number.specFormatter
  templates := []

def tag (raw key : String) (links : List Link) : Tag :=
  ⟨raw, none, .ofPath key true, links, none, false⟩

/-- A section over the items, and one without a body that can be rendered. -/
def items (body : List MarkedNode) : MarkedNode :=
  .block ⟨⟨"", some .sectionInclude, .ofPath "xs" false, [], none, false⟩,
    .ofPath "xs" false, []⟩ body

def unlessDone (body : List Node) : MarkedNode :=
  .marked ⟨⟨"", some .sectionExclude, .ofPath "done" true, [], none, false⟩,
    .ofPath "done" true, []⟩ body

def template : MarkedTemplate where
  nodes := [.inclusion ⟨"{{>p}}", .ofPath "p" false, none, false⟩]
  delimiters := .default

def templates : List (String × MarkedTemplate) :=
  [("p", ⟨[items [unlessDone [.tag (tag "{{.n -> g}}" "n" [⟨.ofPath "g" false, none, false⟩])],
    .tag (tag "{{.n}}" "n" [])]], .default⟩)]

def data : Value Unit :=
  .record [("xs", .array [.record [("done", .function ()), ("n", .string "a")],
    .record [("done", .bool true), ("n", .string "b")]])]

end HiddenItems

open HiddenItems in
/-- A function that says that an item is done hides what could not be rendered. -/
theorem Run.render_emptied_items :
    (∀ s', Guarded.render env templates template (.start data) ≠ .error Guarded.shown s') ∧
    (ending (render (env.including (MarkedTemplate.fillAll id templates)) (template.fill id))
      (.start data)).toOption = some "ab" ∧
    render (env.including (MarkedTemplate.fillAll (fun _ => []) templates))
        (template.fill fun _ => []) (.start data) =
      render (env.including (MarkedTemplate.fillAll id templates)) (template.fill id)
        (.start data) := by
  have hidden : ∀ s', Guarded.render env templates template (.start data) ≠
      .error Guarded.shown s' := by
    have hrun : (match Guarded.render env templates template (.start data) with
        | .ok _ _ => true
        | .error _ _ => false) = true := by decide +kernel
    intro s' h
    rw [h] at hrun
    cases hrun
  exact ⟨hidden, by decide +kernel, render_emptied hidden⟩

end TextTemplate
