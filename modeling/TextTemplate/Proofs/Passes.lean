import TextTemplate.Proofs.Inclusions
import TextTemplate.Proofs.Passes.Trace

/-!
The steps of a render. To the tree it works on a render does a few things only: it resolves bindings,
reads values, makes items, and asks for the inner scopes of sections. Both passes over any nodes, with
whatever templates they include, are made of these steps, whether they end in a text or an error.
-/
namespace TextTemplate
variable {φ : Type}

namespace Run

variable {env : Env φ} {start s : Session φ} {log : List (Passage φ)} {scope : ScopeId}
  {overlays : List ScopeId}

/-- Included templates are made of steps. -/
def Inclusions (env : Env φ) (start : Session φ) (log : List (Passage φ))
    (inc : Inclusion → ScopeId → Run φ String) : Prop :=
  ∀ s i id, Traced env start log s → id < s.tree.scopes.size →
    Leads (Traced env start log) s (inc i id) fun _ _ => True

variable {inc : Inclusion → ScopeId → Run φ String}

/-- The first pass over these nodes is made of steps. -/
def StageSteps (env : Env φ) (start : Session φ) (log : List (Passage φ))
    (inc : Inclusion → ScopeId → Run φ String) (nodes : List Node) : Prop :=
  ∀ {s : Session φ} {scope : ScopeId} (inScope : Bool) (waiting : List ScopeId),
    Traced env start log s → scope < s.tree.scopes.size →
    Leads (Traced env start log) s (stageNodes env inc scope inScope waiting nodes) fun _ _ => True

/-- What the first pass leaves of a section whose body waits for the second. -/
theorem StageSteps.copied {head : Section} {body : List Node}
    (hbody : StageSteps env start log inc body) (inScope : Bool) (waiting : List ScopeId)
    (h : Traced env start log s) (hscope : scope < s.tree.scopes.size) :
    Leads (Traced env start log) s
      (do return [Node.block head (← stageNodes env inc scope inScope waiting body)]) fun _ _ => True :=
  (hbody inScope waiting h hscope).bind fun _ _ _ h' _ => .pure h' trivial

private theorem traced_stageBlock (hstart : Starts start.tree) {head : Section} {body : List Node}
    (hbody : StageSteps env start log inc body) (inScope : Bool) (waiting : List ScopeId)
    (h : Traced env start log s) (hscope : scope < s.tree.scopes.size) :
    Leads (Traced env start log) s (stageNode env inc scope inScope waiting (.block head body))
      fun _ _ => True := by
  rw [stageNode]
  refine .look ?_
  split
  · exact .pure h trivial
  · refine (traced_section hstart h hscope (by simp) head).bind fun r s₁ he₁ h₁ hr => ?_
    replace hscope := he₁.lt hscope
    cases r with
    | none =>
      dsimp only
      split
      · refine (traced_missing h₁ head.raw).bind fun _ s₂ he₂ h₂ _ => ?_
        split
        · exact .pure h₂ trivial
        · exact hbody inScope waiting h₂ (he₂.lt hscope)
      · exact .pure h₁ trivial
    | some r =>
      have hposed := hr r rfl
      refine .look ?_
      dsimp only
      cases hpass : head.passesText with
      | true => exact hbody.copied inScope _ h₁ hscope
      | false =>
        simp only [Bool.false_eq_true, if_false]
        split
        · split
          · split
            · exact hbody inScope waiting h₁ hscope
            · exact .pure h₁ trivial
          · split
            · exact .pure h₁ trivial
            · exact (traced_innerScope hstart h₁ hposed hpass).bind fun id s₂ he₂ h₂ _ =>
                hbody.copied false _ h₂ (he₂.lt hscope)
        · refine (traced_display h₁ _ _ _).bind fun shown s₂ he₂ h₂ ht => ?_
          split
          · exact (traced_innerScope hstart h₂ (ht ▸ hposed) hpass).bind fun id s₃ _ h₃ hid =>
              hbody true waiting h₃ hid
          · exact .pure h₂ trivial

mutual

private theorem traced_stageNode (hstart : Starts start.tree)
    (hinc : Inclusions env start log inc) :
    (node : Node) → ∀ {s : Session φ} {scope : ScopeId} (inScope : Bool)
    (waiting : List ScopeId), Traced env start log s → scope < s.tree.scopes.size →
    Leads (Traced env start log) s (stageNode env inc scope inScope waiting node) fun _ _ => True
  | .text text, s, scope, inScope, waiting, h, hscope => by
    rw [stageNode]
    exact .pure h trivial
  | .inclusion i, s, scope, inScope, waiting, h, hscope => by
    rw [stageNode]
    split
    · exact .pure h trivial
    · exact (hinc s i scope h hscope).bind fun _ _ _ h' _ => .pure h' trivial
  | .tag tag, s, scope, inScope, waiting, h, hscope => by
    rw [stageNode]
    refine .look ?_
    split
    · exact .pure h trivial
    · refine (traced_resolve hstart h hscope (by simp) tag.binding).bind fun r s' he h' _ => ?_
      cases r with
      | some r => exact .pure h' trivial
      | none =>
        dsimp only
        split
        · exact (traced_missing h' tag.raw).bind fun _ _ _ h'' _ => .pure h'' trivial
        · exact .pure h' trivial
  | .block _ body, _, _, inScope, waiting, h, hscope =>
    traced_stageBlock hstart (fun inScope waiting h hscope =>
      traced_stageNodes hstart hinc body inScope waiting h hscope) inScope waiting h hscope

private theorem traced_stageNodes (hstart : Starts start.tree)
    (hinc : Inclusions env start log inc) :
    (nodes : List Node) → ∀ {s : Session φ} {scope : ScopeId}
    (inScope : Bool) (waiting : List ScopeId), Traced env start log s →
    scope < s.tree.scopes.size →
    Leads (Traced env start log) s (stageNodes env inc scope inScope waiting nodes) fun _ _ => True
  | [], s, scope, inScope, waiting, h, hscope => by
    rw [stageNodes]
    exact .pure h trivial
  | node :: nodes, s, scope, inScope, waiting, h, hscope => by
    rw [stageNodes]
    refine (traced_stageNode hstart hinc node inScope waiting h hscope).bind fun _ s' he h' _ => ?_
    exact (traced_stageNodes hstart hinc nodes inScope waiting h' (he.lt hscope)).bind
      fun _ _ _ h'' _ => .pure h'' trivial

end

/-- Bodies of sections that are made of steps. -/
def BodySteps (env : Env φ) (start : Session φ) (log : List (Passage φ))
    (body : ScopeId → List ScopeId → Run φ String) : Prop :=
  ∀ s id os, Traced env start log s → id < s.tree.scopes.size → (∀ o ∈ os, o < s.tree.scopes.size) →
    Leads (Traced env start log) s (body id os) fun _ _ => True

private theorem traced_settleNode (hstart : Starts start.tree)
    (hinc : Inclusions env start log inc) (h : Traced env start log s)
    (hscope : scope < s.tree.scopes.size) (hover : ∀ o ∈ overlays, o < s.tree.scopes.size)
    (expanded : Option String) (node : Node) :
    Leads (Traced env start log) s (settleNode env inc scope overlays expanded node)
      fun _ _ => True := by
  cases node with
  | text text => exact .pure h trivial
  | block head body => exact .pure h trivial
  | inclusion i => exact hinc s i scope h hscope
  | tag tag =>
    refine (traced_resolve hstart h hscope hover tag.binding).bind fun r s' _ h' _ => ?_
    cases r with
    | some r => exact .pure h' trivial
    | none => exact (traced_missing h' tag.raw).bind fun _ _ _ h'' _ => .pure h'' trivial

private theorem traced_settleLevel (hstart : Starts start.tree)
    (hinc : Inclusions env start log inc) (h : Traced env start log s)
    (hscope : scope < s.tree.scopes.size) (hover : ∀ o ∈ overlays, o < s.tree.scopes.size)
    (level : List (Node × Option String)) :
    Leads (Traced env start log) s (settleLevel env inc scope overlays level) fun _ _ => True := by
  induction level generalizing s with
  | nil => exact .pure h trivial
  | cons n rest ih =>
    refine (traced_settleNode hstart hinc h hscope hover n.2 n.1).bind fun _ s' he h' _ => ?_
    exact (ih h' (he.lt hscope) fun o ho => he.lt (hover o ho)).bind
      fun _ _ _ h'' _ => .pure h'' trivial

private theorem traced_expandItems (hstart : Starts start.tree)
    {body : ScopeId → List ScopeId → Run φ String}
    (hbody : BodySteps env start log body) (h : Traced env start log s)
    (hscope : scope < s.tree.scopes.size) (hover : ∀ o ∈ overlays, o < s.tree.scopes.size)
    (raw : String) (indices : List Nat) :
    Leads (Traced env start log) s (expandItems env raw body scope overlays indices)
      fun _ _ => True := by
  induction indices generalizing s with
  | nil => exact .pure h trivial
  | cons index rest ih =>
    refine (traced_item hstart h hscope _ index).bind fun item s₁ he₁ h₁ hitem => ?_
    refine (traced_value hstart h₁ hitem _).bind fun v s₂ he₂ h₂ _ => ?_
    refine (traced_display h₂ true v raw).bind fun shown s₃ he₃ h₃ _ => ?_
    have he := he₁.trans (he₂.trans he₃)
    have hitem' := (he₂.trans he₃).lt hitem
    have hover' : ∀ o ∈ overlays, o < s₃.tree.scopes.size := fun o ho => he.lt (hover o ho)
    split
    · refine (hbody s₃ item (item :: overlays) h₃ hitem' fun o ho => ?_).bind
        fun _ s₄ he₄ h₄ _ => ?_
      · rcases List.mem_cons.1 ho with rfl | ho
        · exact hitem'
        · exact hover' o ho
      · exact (ih h₄ (he₄.lt (he.lt hscope)) fun o ho => he₄.lt (hover' o ho)).bind
          fun _ _ _ h' _ => .pure h' trivial
    · exact ih h₃ (he.lt hscope) hover'

private theorem traced_expandSection (hstart : Starts start.tree)
    {body : ScopeId → List ScopeId → Run φ String}
    (hbody : BodySteps env start log body) (h : Traced env start log s)
    (hscope : scope < s.tree.scopes.size) (hover : ∀ o ∈ overlays, o < s.tree.scopes.size)
    (head : Section) :
    Leads (Traced env start log) s (expandSection env head body scope overlays)
      fun _ _ => True := by
  refine (traced_section hstart h hscope hover head).bind fun r s₁ he₁ h₁ hr => ?_
  replace hscope := he₁.lt hscope
  replace hover : ∀ o ∈ overlays, o < s₁.tree.scopes.size := fun o ho => he₁.lt (hover o ho)
  cases r with
  | none =>
    refine (traced_missing h₁ head.raw).bind fun _ s₂ he₂ h₂ _ => ?_
    split
    · exact .pure h₂ trivial
    · exact hbody s₂ scope overlays h₂ (he₂.lt hscope) fun o ho => he₂.lt (hover o ho)
  | some r =>
    have hposed := hr r rfl
    dsimp only
    cases hpass : head.passesText with
    | true =>
      refine (hbody s₁ scope overlays h₁ hscope hover).bind fun text s₂ _ h₂ _ => ?_
      exact (leads_passThrough (traced_calls h₂) _ _ _).bind fun _ _ _ h' _ => .pure h' trivial
    | false =>
      simp only [Bool.false_eq_true, if_false]
      split
      · split
        · split
          · exact hbody s₁ scope overlays h₁ hscope hover
          · exact .pure h₁ trivial
        · refine (traced_innerScope hstart h₁ hposed hpass).bind fun id s₂ he₂ h₂ hid => ?_
          refine (traced_expandItems hstart hbody h₂ hid (fun o ho => he₂.lt (hover o ho)) head.raw
            (List.range r.size)).bind fun _ _ _ h' _ => .pure h' trivial
      · refine (traced_display h₁ _ _ _).bind fun shown s₂ he₂ h₂ ht => ?_
        split
        · refine (traced_innerScope hstart h₂ (ht ▸ hposed) hpass).bind fun id s₃ he₃ h₃ hid => ?_
          refine hbody s₃ id _ h₃ hid fun o ho => ?_
          have hkeep : ∀ o ∈ overlays, o < s₃.tree.scopes.size := fun o ho =>
            (he₂.trans he₃).lt (hover o ho)
          split at ho
          · rcases List.mem_cons.1 ho with rfl | ho
            · exact hid
            · exact hkeep o ho
          · exact hkeep o ho
        · exact .pure h₂ trivial

mutual

private theorem traced_expandNode (hstart : Starts start.tree)
    (hinc : Inclusions env start log inc) :
    (node : Node) → ∀ {s : Session φ} {scope : ScopeId}
    {overlays : List ScopeId}, Traced env start log s → scope < s.tree.scopes.size →
    (∀ o ∈ overlays, o < s.tree.scopes.size) →
    Leads (Traced env start log) s (expandNode env inc scope overlays node) fun _ _ => True
  | .text _, _, _, _, h, _, _ | .inclusion _, _, _, _, h, _, _ | .tag _, _, _, _, h, _, _ => by
    rw [expandNode]
    · exact .pure h trivial
    all_goals simp
  | .block head body, s, scope, overlays, h, hscope, hover => by
    rw [expandNode]
    refine (traced_expandSection hstart ?_ h hscope hover head).bind
      fun _ _ _ h' _ => .pure h' trivial
    intro s id os h hid hos
    refine (traced_expandNodes hstart hinc body h hid hos).bind fun pieces s' he h' _ => ?_
    exact traced_settleLevel hstart hinc h' (he.lt hid) (fun o ho => he.lt (hos o ho)) _

private theorem traced_expandNodes (hstart : Starts start.tree)
    (hinc : Inclusions env start log inc) :
    (nodes : List Node) → ∀ {s : Session φ} {scope : ScopeId}
    {overlays : List ScopeId}, Traced env start log s → scope < s.tree.scopes.size →
    (∀ o ∈ overlays, o < s.tree.scopes.size) →
    Leads (Traced env start log) s (expandNodes env inc scope overlays nodes) fun _ _ => True
  | [], _, _, _, h, _, _ => by
    rw [expandNodes]
    exact .pure h trivial
  | node :: nodes, s, scope, overlays, h, hscope, hover => by
    rw [expandNodes]
    refine (traced_expandNode hstart hinc node h hscope hover).bind fun _ s' he h' _ => ?_
    exact (traced_expandNodes hstart hinc nodes h' (he.lt hscope) fun o ho => he.lt (hover o ho)).bind
      fun _ _ _ h'' _ => .pure h'' trivial

end

private theorem traced_renderNodes (hstart : Starts start.tree)
    (hinc : Inclusions env start log inc) (h : Traced env start log s)
    (hscope : scope < s.tree.scopes.size) (nodes : List Node) :
    Leads (Traced env start log) s (renderNodes env inc scope nodes) fun _ _ => True := by
  refine (traced_stageNodes hstart hinc nodes true [] h hscope).bind fun staged s₁ he₁ h₁ _ => ?_
  refine (traced_expandNodes hstart hinc staged h₁ (he₁.lt hscope) (by simp)).bind
    fun pieces s₂ he₂ h₂ _ => ?_
  exact traced_settleLevel hstart hinc h₂ (he₂.lt (he₁.lt hscope)) (by simp) _

/-- An included template has a tree of its own: of it only the calls are left. -/
private theorem traced_nested (h : Traced env start log s) (inner : ScopeTree φ)
    (body : Run φ String) :
    Leads (Traced env start log) s (nested inner body) fun _ _ => True := by
  simp only [Leads, nested]
  cases body ⟨inner, s.calls⟩ with
  | ok text s' => exact ⟨.refl _, traced_calls h s'.calls, trivial⟩
  | error e s' => exact ⟨.refl _, traced_calls h s'.calls, trivial⟩

private theorem traced_notThere (h : Traced env start log s) (i : Inclusion) :
    Leads (Traced env start log) s (notThere env i) fun _ _ => True := by
  rw [notThere]
  split
  · exact .throw h
  · exact .pure h trivial

private theorem traced_included (h : Traced env start log s) (levels : Nat) (i : Inclusion)
    (template : Template) (start' : ScopeId × ScopeTree φ) :
    Leads (Traced env start log) s (included env levels i template start') fun _ _ => True := by
  refine (traced_nested h _ _).bind fun text s' _ h' _ => ?_
  cases text with
  | none => exact .pure h' trivial
  | some text =>
    dsimp only
    split
    · exact .pure h' trivial
    · exact .pure h' trivial

private theorem traced_includeText (hstart : Starts start.tree) (levels : Nat) :
    Inclusions env start log (includeText env levels) := by
  intro s i scope h hscope
  cases hl : env.templates.lookup i.key.text with
  | none => exact includeText_none hl levels scope ▸ traced_notThere h i
  | some template =>
    cases levels with
    | zero => exact includeText_zero hl scope ▸ .pure h trivial
    | succ levels =>
      rw [includeText_succ hl]
      refine .look ?_
      split
      · refine (traced_value hstart h hscope _).bind fun v s' _ h' _ => .look ?_
        exact traced_included h' levels i template _
      · exact traced_included h levels i template _

/-- Whatever a render does, it does in these steps. -/
theorem trace_renderNodes (hstart : Starts start.tree) (h : Trace env start log s) {top : ScopeId}
    (htop : top < s.tree.scopes.size) (levels : Nat) (nodes : List Node) :
    ∃ more, Trace env start (log ++ more)
      ((renderNodes env (includeText env levels) top nodes).left s) :=
  (traced_renderNodes hstart (traced_includeText hstart levels) ⟨[], by simpa using h⟩ htop
    nodes).left

end Run

/-- Below a section with functions keys are read in what its own functions came to exactly when the
first section of the render that passed the same scope through the same functions came to that too.
With pure functions this is so while their links have the same formats. -/
theorem Trace.innerScope_value {env : Env φ} {start s : Session φ} {log : List (Passage φ)}
    (hstart : Starts start.tree) (h : Trace env start log s) :
    (∀ top nodes levels, top < s.tree.scopes.size → ∃ more, Trace env start (log ++ more)
      ((Run.renderNodes env (Run.includeText env levels) top nodes).left s)) ∧
    ∀ (head : Section) scope overlays r s₁ s₂, head.links ≠ [] → head.passesText = false →
      scope < s.tree.scopes.size → (∀ o ∈ overlays, o < s.tree.scopes.size) →
      Run.resolve env head.binding scope overlays s = .ok (some r) s₁ → s₂.tree = s₁.tree →
      ∃ inner s₃ w, Run.innerScope r s₂ = .ok inner s₃ ∧ r.value = some w ∧
        ((∀ x ∈ r.chain, env.host.PureAt x.2) →
          Treeless.passThrough env (s₂.tree.data ScopeTree.root) (env.policy head.raw)
            ((r.chain.map Prod.snd).zip head.links) (s₂.tree.data r.scope) = .ok w) ∧
        (s₃.tree.data inner = w ↔ ∀ e, log.find? (Passage.passed r.scope (r.chain.map Prod.fst)) =
          some e → e.value = w) ∧
        ((∀ x ∈ r.chain, env.host.PureAt x.2) →
          (∀ e ∈ log, e.passed r.scope (r.chain.map Prod.fst) = true →
            e.head.formats = head.formats) → s₃.tree.data inner = w) := by
  refine ⟨fun top nodes levels htop => Run.trace_renderNodes hstart h htop levels nodes, ?_⟩
  intro head scope overlays r s₁ s₂ hlinks hwhole hscope hover hres hsame
  obtain ⟨hk, hr⟩ := kept_resolve (h.kept hstart) hscope hover hres
  rw [← hsame] at hk hr
  obtain ⟨hvalue, -, hvalid⟩ := hk.passage_valid (e := ⟨head, r⟩) hr hlinks hwhole
  obtain ⟨hext, -, hheld⟩ := hk.enter (e := ⟨head, r⟩) hr hlinks hwhole rfl
  have hdata := hheld.data
  have hiff : (((log.find? (Passage.passed r.scope (r.chain.map Prod.fst))).getD ⟨head, r⟩).value =
      Passage.value ⟨head, r⟩) ↔ ∀ e, log.find? (Passage.passed r.scope (r.chain.map Prod.fst)) =
        some e → e.value = Passage.value ⟨head, r⟩ := by
    cases log.find? (Passage.passed r.scope (r.chain.map Prod.fst)) with
    | none => simp
    | some e => simp
  refine ⟨_, _, Passage.value ⟨head, r⟩, by rw [hr.innerScope_linked hlinks]; rfl, hvalue,
    fun hpure => hvalid.passes hpure _, by rw [← hiff]; exact Eq.congr_left hdata,
    fun hpure hformats => ?_⟩
  refine hdata.trans (hiff.2 fun e he => ?_)
  exact Passage.value_eq (hk.valid e (List.mem_of_find?_eq_some he)) hvalid (List.find?_some he)
    (hformats e (List.mem_of_find?_eq_some he) (List.find?_some he)) hpure

namespace TwoFormats

/-- A function that gives back what it is given. -/
def env : Env Unit := ⟨⟨fun _ _ context _ => .ok context⟩, .default, Number.specFormatter, []⟩

def data : Value Unit := .record [("k", .string "ada"), ("f", .function ())]

/-- A section over the field `k` passed through the field `f`. -/
def head (format : Option String) : Section where
  opener := ⟨"k -> f", some .sectionInclude, .ofPath "k" true, [], none, false⟩
  key := .ofPath "k" true
  links := [⟨.ofPath "f" true, format, false⟩]

def resolved (format : Option String) : Run Unit (Option (Resolution Unit)) :=
  Run.resolve env (head format).binding ScopeTree.root []

theorem pure : env.host.IsPure := fun _ _ _ _ _ => rfl

/-- After a section with the format `before`, one with the format `after`: its own value, and what
the scope below it holds. -/
def afterwards (before after : Option String) : Run Unit (Option (Option String × Option String)) := do
  match ← resolved before with
  | none => return none
  | some r =>
    let _ ← Run.innerScope r
    match ← resolved after with
    | none => return none
    | some r' =>
      let inner ← Run.innerScope r'
      return some (r'.value.bind Value.string?, ((← Run.tree).data inner).string?)

/-- Both sections are entered in a run of `afterwards`. -/
theorem afterwards_trace {before after : Option String} {x : Option String × Option String}
    {s : Session Unit} (h : afterwards before after (.start data) = .ok (some x) s) :
    ∃ r s₁ i s₂ r' s₃ inner s₄,
      resolved before (.start data) = .ok (some r) s₁ ∧ Run.innerScope r s₁ = .ok i s₂ ∧
      Trace env (.start data) [⟨head before, r⟩] s₂ ∧
      resolved after s₂ = .ok (some r') s₃ ∧ Run.innerScope r' s₃ = .ok inner s₄ ∧
      r'.value.bind Value.string? = x.1 ∧ (s₄.tree.data inner).string? = x.2 := by
  obtain ⟨_ | r, s₁, h₁, h⟩ := Run.of_bind h
  · cases h
  obtain ⟨i, s₂, h₂, h⟩ := Run.of_bind h
  obtain ⟨_ | r', s₃, h₃, h⟩ := Run.of_bind h
  · cases h
  obtain ⟨inner, s₄, h₄, h⟩ := Run.of_bind h
  have htrace := Trace.enter (e := ⟨head before, r⟩) (@Trace.start _ env (.start data))
    Nat.zero_lt_one (by simp) (by simp [head]) rfl h₁ rfl
  simp only [Run.left, h₂] at htrace
  obtain ⟨hx, -⟩ := EStateM.Result.ok.inj h
  cases hx
  exact ⟨r, s₁, i, s₂, r', s₃, inner, s₄, h₁, h₂, htrace, h₃, h₄, rfl, rfl⟩

end TwoFormats

open TwoFormats in
/-- The second section is read in what the first one came to. -/
theorem Trace.innerScope_value_formats :
    env.host.IsPure ∧ ∃ r s₁ i s₂ r' s₃ inner s₄,
      resolved none (.start data) = .ok (some r) s₁ ∧ Run.innerScope r s₁ = .ok i s₂ ∧
      Trace env (.start data) [⟨head none, r⟩] s₂ ∧
      resolved (some "upper") s₂ = .ok (some r') s₃ ∧ Run.innerScope r' s₃ = .ok inner s₄ ∧
      r'.value.bind Value.string? = some "ADA" ∧ (s₄.tree.data inner).string? = some "ada" := by
  have hrun : (match afterwards none (some "upper") (.start data) with
      | .ok x _ => x
      | .error _ _ => none) = some (some "ADA", some "ada") := by decide +kernel
  split at hrun
  · rename_i h
    subst hrun
    exact ⟨TwoFormats.pure, afterwards_trace h⟩
  · cases hrun

open TwoFormats in
/-- A second section without a format is read in what it came to itself. -/
theorem Trace.innerScope_value_again :
    ∃ r s, Trace env (.start data) [⟨head none, r⟩] s ∧ ∃ r' s₁ inner s₂ w,
      resolved none s = .ok (some r') s₁ ∧ Run.innerScope r' s₁ = .ok inner s₂ ∧
      r'.value = some w ∧ s₂.tree.data inner = w := by
  have hrun : (match afterwards none none (.start data) with
      | .ok x _ => x
      | .error _ _ => none) = some (some "ada", some "ada") := by decide +kernel
  split at hrun
  · rename_i h
    subst hrun
    obtain ⟨r, s₁, i, s₂, r', s₃, inner, s₄, -, -, htrace, h₃, -⟩ := afterwards_trace h
    have hstart : Starts (Session.start data).tree := .new data
    obtain ⟨inner', s₅, w, hinner, hvalue, -, -, hsame⟩ := (Trace.innerScope_value hstart htrace).2
      (head none) ScopeTree.root [] r' s₃ s₃ (by simp [head]) rfl
      (htrace.kept hstart).wellFormed.top_lt (by simp) h₃ rfl
    refine ⟨r, s₂, htrace, r', s₃, inner', s₅, w, h₃, hinner, hvalue, hsame
      (fun x _ => TwoFormats.pure.pureAt x.2) fun e he _ => ?_⟩
    rw [List.mem_singleton.1 he]
  · cases hrun

end TextTemplate
