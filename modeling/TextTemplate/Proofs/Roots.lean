import TextTemplate.Proofs.Inclusions
import TextTemplate.Proofs.Roots.Staging

/-!
The root that bound functions see. A function is called with the data around it and the whole data.
What stands in the place of the top, a loop item or the result of functions, is taken for the whole
data by what is bound in it; so the sections that can put something there are told apart, and where
there are none, every call of a render is given the data it was started with.
-/
namespace TextTemplate
variable {φ : Type}

namespace Run

variable {data : Value φ} {env : Env φ} {s : Session φ} {scope : ScopeId}
  {overlays : List ScopeId} {inside : Bool} {inc : Inclusion → ScopeId → Run φ String}

/-- A body of a section that keeps trees with one top. `inside` says that it is read from below the
top. -/
abbrev BodyRooted (data : Value φ) (inside : Bool)
    (body : ScopeId → List ScopeId → Run φ String) : Prop :=
  ∀ {s : Session φ} {scope : ScopeId} {overlays : List ScopeId}, s.Rooted data →
    scope < s.tree.scopes.size → (inside = true → scope ≠ ScopeTree.root) →
    (∀ o ∈ overlays, Below s.tree o) →
    Leads (Session.Rooted data) s (body scope overlays) fun _ _ => True

theorem Below.mono {t t' : ScopeTree φ} {id : ScopeId} (h : Below t id) (he : t.Extends t') :
    Below t' id := ⟨he.lt h.1, h.2⟩

private theorem rooted_expandItems {inside : Bool} {body : ScopeId → List ScopeId → Run φ String}
    (hbody : BodyRooted data inside body) (hs : s.Rooted data) {raw : String}
    (hscope : Below s.tree scope) (hover : ∀ o ∈ overlays, Below s.tree o) (indices : List Nat) :
    Leads (Session.Rooted data) s (expandItems env raw body scope overlays indices)
      fun _ _ => True := by
  induction indices generalizing s with
  | nil => exact .pure hs trivial
  | cons index rest ih =>
    rw [expandItems]
    refine (rooted_item hs hscope index).bind fun item s₁ he₁ hs₁ hitem => ?_
    refine (rooted_value hs₁ hitem.1).bind fun v s₂ he₂ hs₂ _ => ?_
    refine (rooted_display hs₂ true v raw).bind fun shown s₃ he₃ hs₃ _ => ?_
    have he := (he₁.trans he₂).trans he₃
    have hitem₃ := hitem.mono (he₂.trans he₃)
    have hover₃ : ∀ o ∈ item :: overlays, Below s₃.tree o := by
      intro o ho
      rcases List.mem_cons.1 ho with rfl | ho
      · exact hitem₃
      · exact (hover o ho).mono he
    split
    · refine (hbody hs₃ hitem₃.1 (fun _ => hitem₃.2) hover₃).bind fun text s₄ he₄ hs₄ _ => ?_
      exact (ih hs₄ (hscope.mono (he.trans he₄)) fun o ho => (hover o ho).mono (he.trans he₄)).bind
        fun _ _ _ hs₅ _ => .pure hs₅ trivial
    · exact ih hs₃ (hscope.mono he) fun o ho => (hover o ho).mono he

private theorem rooted_expandSection {head : Section} {inside' : Bool}
    {body : ScopeId → List ScopeId → Run φ String} (hbody : BodyRooted data inside' body)
    (hs : s.Rooted data) (hscope : scope < s.tree.scopes.size)
    (hinside : inside = true → scope ≠ ScopeTree.root) (hover : ∀ o ∈ overlays, Below s.tree o)
    (hf : head.Formed) (hspares : head.passesText = true ∨ head.SparesTop data inside)
    (hinside' : inside' = true → head.passesText = false ∧ head.inclusive = true ∧
      head.key.leadsBelow inside = true) :
    Leads (Session.Rooted data) s (expandSection env head body scope overlays)
      fun _ _ => True := by
  rw [expandSection]
  refine (rooted_resolve hs hscope hover hf.keys fun _ => hinside).bind fun r s₁ he₁ hs₁ hr => ?_
  have hover₁ : ∀ o ∈ overlays, Below s₁.tree o := fun o ho => (hover o ho).mono he₁
  cases r with
  | none =>
    refine (rooted_missing hs₁ head.raw).bind fun _ s₂ he₂ hs₂ _ => ?_
    split
    · exact .pure hs₂ trivial
    · rename_i hexcl
      exact hbody hs₂ (he₂.lt (he₁.lt hscope)) (fun h => absurd (hinside' h).2.1 hexcl)
        fun o ho => (hover₁ o ho).mono he₂
  | some r =>
    have hr := hr r rfl
    dsimp only
    split
    · rename_i hp
      have hnot : inside' = true → scope ≠ ScopeTree.root := fun h => by
        rw [(hinside' h).1] at hp
        cases hp
      exact (hbody hs₁ (he₁.lt hscope) hnot hover₁).bind fun text s₂ _ hs₂ _ =>
        (rooted_passThrough hs₂ _ _ _).bind fun _ _ _ hs₃ _ => .pure hs₃ trivial
    · rename_i hp
      have hhead := hr.spares (hspares.resolve_left hp)
      split
      · rename_i hrepeats
        split
        · rename_i hexcl
          split
          · exact hbody hs₁ (he₁.lt hscope)
              (fun h => by simp [(hinside' h).2.1] at hexcl) hover₁
          · exact .pure hs₁ trivial
        · have hne : r.scope ≠ ScopeTree.root := hhead.resolve_right fun h => by
            simp [h.1] at hrepeats
          refine (rooted_innerScope hs₁ hr hhead).bind fun inner s₂ he₂ hs₂ ⟨hlt, hinner⟩ => ?_
          exact (rooted_expandItems hbody hs₂ ⟨hlt, hinner hne⟩
            (fun o ho => (hover₁ o ho).mono he₂) _).bind fun _ _ _ hs₃ _ => .pure hs₃ trivial
      · refine (rooted_display hs₁ _ _ _).bind fun shown s₂ he₂ hs₂ _ => ?_
        split
        · refine (rooted_innerScope hs₂ (hr.mono he₂) hhead).bind
            fun inner s₃ he₃ hs₃ ⟨hlt, hinner⟩ => ?_
          have hover₃ : ∀ o ∈ overlays, Below s₃.tree o :=
            fun o ho => (hover₁ o ho).mono (he₂.trans he₃)
          refine hbody hs₃ hlt (fun h => hinner (hr.below (hinside' h).2.2)) ?_
          split
          · rename_i hdynamic
            have hne : r.scope ≠ ScopeTree.root := hhead.resolve_right fun h => by
              simp [h.2] at hdynamic
            intro o ho
            rcases List.mem_cons.1 ho with rfl | ho
            · exact ⟨hlt, hinner hne⟩
            · exact hover₃ o ho
          · exact hover₃
        · exact .pure hs₂ trivial

private theorem rooted_settleNode (hinc : RootedInclusions data inc) (hs : s.Rooted data)
    (hscope : scope < s.tree.scopes.size) (hover : ∀ o ∈ overlays, Below s.tree o)
    (expanded : Option String) {node : Node} (hf : node.Formed) :
    Leads (Session.Rooted data) s (settleNode env inc scope overlays expanded node)
      fun _ _ => True := by
  cases node with
  | text text => exact .pure hs trivial
  | block head body => exact .pure hs trivial
  | inclusion i => exact hinc i hs hscope
  | tag tag =>
    refine (rooted_resolve hs hscope hover hf fun _ h => absurd h Bool.false_ne_true).bind
      fun r s' _ hs' _ => ?_
    cases r with
    | some r => exact .pure hs' trivial
    | none => exact (rooted_missing hs' tag.raw).bind fun _ _ _ hs'' _ => .pure hs'' trivial

private theorem rooted_settleLevel (hinc : RootedInclusions data inc) (hs : s.Rooted data)
    (hscope : scope < s.tree.scopes.size) (hover : ∀ o ∈ overlays, Below s.tree o)
    {nodes : List Node} (hf : Node.AllFormed nodes) (pieces : List (Option String)) :
    Leads (Session.Rooted data) s (settleLevel env inc scope overlays (nodes.zip pieces))
      fun _ _ => True := by
  induction nodes generalizing s pieces with
  | nil => exact .pure hs trivial
  | cons node nodes ih =>
    cases pieces with
    | nil => exact .pure hs trivial
    | cons piece pieces =>
      rw [List.zip_cons_cons, settleLevel]
      exact (rooted_settleNode hinc hs hscope hover piece hf.1).bind fun _ s' he hs' _ =>
        (ih hs' (he.lt hscope) (fun o ho => (hover o ho).mono he) hf.2 pieces).bind
          fun _ _ _ hs'' _ => .pure hs'' trivial

mutual

private theorem rooted_expandNode (hinc : RootedInclusions data inc) : (node : Node) →
    ∀ {s : Session φ} {scope : ScopeId} {overlays : List ScopeId} {strict inside : Bool},
    s.Rooted data → scope < s.tree.scopes.size → (inside = true → scope ≠ ScopeTree.root) →
    (∀ o ∈ overlays, Below s.tree o) → node.Formed → node.SparesTop data strict inside →
    Leads (Session.Rooted data) s (expandNode env inc scope overlays node) fun _ _ => True
  | .text _, _, _, _, _, _, hs, _, _, _, _, _
  | .inclusion _, _, _, _, _, _, hs, _, _, _, _, _
  | .tag _, _, _, _, _, _, hs, _, _, _, _, _ => by
    rw [expandNode]
    · exact .pure hs trivial
    all_goals simp
  | .block head body, s, scope, overlays, strict, inside, hs, hscope, hinside, hover, hf, hn => by
    obtain ⟨hhead, hfbody⟩ := hf
    have hlevel : ∀ {strict' inside' : Bool}, Node.AllSpareTop data strict' inside' body →
        BodyRooted data inside' fun scope overlays =>
          expandNodes env inc scope overlays body >>= fun pieces =>
            settleLevel env inc scope overlays (body.zip pieces) := by
      intro strict' inside' hnbody s' scope' overlays' hs' hscope' hinside' hover'
      exact (rooted_expandNodes hinc body hs' hscope' hinside' hover' ⟨hfbody, hnbody⟩).bind
        fun pieces s'' he hs'' _ => rooted_settleLevel hinc hs'' (he.lt hscope')
          (fun o ho => (hover' o ho).mono he) hfbody pieces
    rw [expandNode]
    rw [Node.SparesTop] at hn
    split at hn
    · rename_i hp
      exact (rooted_expandSection (hlevel hn) hs hscope hinside hover hhead (.inl hp) nofun).bind
        fun _ _ _ hs' _ => .pure hs' trivial
    · rename_i hp
      refine (rooted_expandSection (hlevel hn.2) hs hscope hinside hover hhead (.inr hn.1)
        fun h => ?_).bind fun _ _ _ hs' _ => .pure hs' trivial
      simp only [Bool.and_eq_true] at h
      exact ⟨by simpa using hp, h.1.2, h.2⟩

private theorem rooted_expandNodes (hinc : RootedInclusions data inc) : (nodes : List Node) →
    ∀ {s : Session φ} {scope : ScopeId} {overlays : List ScopeId} {strict inside : Bool},
    s.Rooted data → scope < s.tree.scopes.size → (inside = true → scope ≠ ScopeTree.root) →
    (∀ o ∈ overlays, Below s.tree o) → Spared data strict inside nodes →
    Leads (Session.Rooted data) s (expandNodes env inc scope overlays nodes) fun _ _ => True
  | [], _, _, _, _, _, hs, _, _, _, _ => by
    rw [expandNodes]
    exact .pure hs trivial
  | node :: nodes, s, scope, overlays, strict, inside, hs, hscope, hinside, hover, hn => by
    rw [expandNodes]
    exact (rooted_expandNode hinc node hs hscope hinside hover hn.1.1 hn.2.1).bind
      fun _ s' he hs' _ => (rooted_expandNodes hinc nodes hs' (he.lt hscope) hinside
        (fun o ho => (hover o ho).mono he) ⟨hn.1.2, hn.2.2⟩).bind
          fun _ _ _ hs'' _ => .pure hs'' trivial

end

private theorem rooted_renderNodes (hinc : RootedInclusions data inc) (hs : s.Rooted data)
    {top : ScopeId} (htop : top < s.tree.scopes.size) {nodes : List Node}
    (hn : Spared data false false nodes) :
    Leads (Session.Rooted data) s (renderNodes env inc top nodes) fun _ _ => True := by
  have hat : StagesAt s.tree top true [] false false false :=
    .outside htop fun _ => .inr rfl
  refine (rooted_stageNodes hinc nodes hs hat hn).bind fun staged s₁ he₁ hs₁ hst => ?_
  refine (rooted_expandNodes hinc staged hs₁ (he₁.lt htop) (fun h => absurd h Bool.false_ne_true)
    (by simp) hst).bind fun pieces s₂ he₂ hs₂ _ => ?_
  exact rooted_settleLevel hinc hs₂ ((he₁.trans he₂).lt htop) (by simp) hst.1 pieces

private theorem rooted_nested (hs : s.Rooted data) {tree : ScopeTree φ} {body : Run φ String}
    (hbody : (body.left ⟨tree, s.calls⟩).Rooted data) :
    Leads (Session.Rooted data) s (nested tree body) fun _ _ => True := by
  rw [left] at hbody
  simp only [Leads, nested]
  cases h : body ⟨tree, s.calls⟩ with
  | ok text inner =>
    rw [h] at hbody
    exact ⟨.refl _, ⟨hs.tree, hbody.calls⟩, trivial⟩
  | error e inner =>
    rw [h] at hbody
    exact ⟨.refl _, ⟨hs.tree, hbody.calls⟩, trivial⟩

private theorem rooted_included {levels : Nat}
    (hinc : RootedInclusions data (includeText env levels))
    (hs : s.Rooted data) (i : Inclusion) {template : Template}
    (ht : Spared data false false template.nodes) {start : ScopeId × ScopeTree φ}
    (hstart : start.2.Rooted data) (htop : start.1 < start.2.scopes.size) :
    Leads (Session.Rooted data) s (included env levels i template start) fun _ _ => True := by
  have hbody : Session.Rooted data
      ((renderNodes env (includeText env levels) start.1 template.nodes).left
        ⟨start.2, s.calls⟩) :=
    (rooted_renderNodes (s := ⟨start.2, s.calls⟩) hinc ⟨hstart, hs.calls⟩ htop ht).left
  refine (rooted_nested hs hbody).bind fun text s' _ hs' _ => ?_
  cases text with
  | none => exact .pure hs' trivial
  | some text =>
    dsimp only
    split
    · exact .pure hs' trivial
    · exact .pure hs' trivial

private theorem rooted_includeText (hd : data.isFunction = false)
    (htemplates : ∀ name t, (name, t) ∈ env.templates → Spared data false false t.nodes)
    (levels : Nat) : RootedInclusions data (includeText env levels) := by
  induction levels with
  | zero =>
    intro i s scope hs hscope
    cases hl : env.templates.lookup i.key.text with
    | none =>
      rw [includeText_none hl, notThere]
      split
      · exact .throw hs
      · exact .pure hs trivial
    | some template =>
      rw [includeText_zero hl]
      exact .pure hs trivial
  | succ levels ih =>
    intro i s scope hs hscope
    cases hl : env.templates.lookup i.key.text with
    | none =>
      rw [includeText_none hl, notThere]
      split
      · exact .throw hs
      · exact .pure hs trivial
    | some template =>
      have ht := htemplates _ _ (ScopeTree.mem_of_lookup hl)
      have hplain : ∀ {s : Session φ}, s.Rooted data → Leads (Session.Rooted data) s
          (included env levels i template (ScopeTree.root, ScopeTree.new data)) fun _ _ => True :=
        fun hs => rooted_included ih hs i ht (ScopeTree.rooted_new hd) Nat.zero_lt_one
      rw [includeText_succ hl]
      refine .look ?_
      rw [hs.tree.data_root]
      split
      · refine (rooted_value hs hscope).bind fun v s' he hs' ⟨_, hv⟩ => .look ?_
        by_cases hne : scope = ScopeTree.root
        · have hvalue : v = data := by rw [← hv, hne, hs'.tree.data_root]
          have hstart : ScopeTree.newAt data (s'.tree.path scope) v =
              (ScopeTree.root, ScopeTree.new data) := by
            rw [hne, hs'.tree.path, ScopeTree.newAt_root, hvalue]
          rw [hstart]
          exact hplain hs'
        · have hnamed := (hs'.tree.below scope (he.lt hscope) hne).2.2
          have hstart := ScopeTree.rooted_newAt hd hnamed v
          refine rooted_included ih hs' i ht hstart ?_
          obtain ⟨hfst, -, hg, -⟩ := ScopeTree.newAt_grows data v (ne_empty_of_isNamed hnamed)
          rw [hfst]
          exact hg.made_lt
      · exact hplain hs

/-- **Bound functions see the whole data.** Whatever a render comes to, each call that it made of a
bound function was given the data it was started with as its root, unless a section of the template
or of one that may be included puts something in the place of the top. -/
theorem render_roots {env : Env φ} {template : Template} {data : Value φ}
    (hd : data.isFunction = false) (hf : template.Formed)
    (htop : Node.AllSpareTop data false false template.nodes)
    (htemplates : ∀ name t, (name, t) ∈ env.templates →
      t.Formed ∧ Node.AllSpareTop data false false t.nodes) :
    ∀ c ∈ ((render env template).left (.start data)).calls, c.root = data := by
  have hstart : (Session.start data).Rooted data := ⟨ScopeTree.rooted_new hd, nofun⟩
  have hrender : Leads (Session.Rooted data) (.start data)
      (renderNodes env (includeText env maxPartialDepth) ScopeTree.root template.nodes)
      fun _ _ => True :=
    rooted_renderNodes (rooted_includeText hd htemplates maxPartialDepth) hstart Nat.zero_lt_one
      ⟨hf, htop⟩
  exact hrender.left.calls

end Run

namespace AtTheTop

/-- Functions give what they are given. -/
def env (templates : List (String × Template)) : Env Unit where
  host := ⟨fun _ _ context _ => .ok context⟩
  settings := Settings.default
  numbers := Number.specFormatter
  templates := templates

def tag (key : String) (inContext : Bool) (links : List Link) : Tag :=
  ⟨"", none, .ofPath key inContext, links, none, false⟩

def opened (directive : Directive) (key : String) (inContext : Bool) (links : List Link)
    (body : List Node) : Node :=
  .block ⟨⟨"", some directive, .ofPath key inContext, links, none, false⟩,
    .ofPath key inContext, links⟩ body

/-- A link to what is bound to `f` in the whole data. -/
def byName : Link := ⟨.ofPath "f" false, none, false⟩

/-- Each item, passed through a function, and once more in a template included for it. -/
def template : Template where
  nodes := [opened .sectionInclude "xs" false [] [
    opened .sectionInclude "" true [byName] [.tag (tag "g" true [])],
    .inclusion ⟨"", .ofPath "p" true, none, false⟩]]
  delimiters := .default

/-- The text of what is found in context, passed through a function. -/
def passing : Template where
  nodes := [opened .passSection "f" false [byName] [.tag (tag "g" true [byName])]]
  delimiters := .default

def items : Value Unit := .array [.record [("g", .function ())]]

def data : Value Unit := .record [("xs", items), ("f", .function ())]

/-- A section over the whole data, which is an array. -/
def overAll : Template where
  nodes := [opened .sectionInclude "" true [] [.tag (tag "g" true [])]]
  delimiters := .default

end AtTheTop

open AtTheTop in
/-- Calls made in a loop, for its results and in a template included from it. -/
theorem Run.render_roots_items :
    ((render (env [("p", passing)]) template).left (.start data)).calls.length = 5 ∧
      ∀ c ∈ ((render (env [("p", passing)]) template).left (.start data)).calls,
        c.root = data := by
  have hg : (Key.ofPath "g" true).Formed := Key.formed_ofPath nofun
  have hf : (Key.ofPath "f" false).Formed := Key.formed_ofPath (by simp)
  have hlinked : ∀ {key : Key}, key.Formed → ∀ k ∈ [key, byName.key], k.Formed := by
    rintro key hkey k (_ | ⟨_, _ | ⟨_, ⟨⟩⟩⟩)
    · exact hkey
    · exact hf
  have hplain : ∀ {key : Key}, key.Formed → ∀ k ∈ [key], k.Formed := by
    rintro key hkey k (_ | ⟨_, ⟨⟩⟩)
    exact hkey
  have htemplate : template.Formed :=
    ⟨⟨⟨hplain (Key.formed_ofPath (by simp)), nofun⟩,
      ⟨⟨hlinked (Key.formed_ofPath nofun), nofun⟩, hplain hg, trivial⟩,
      Key.formed_ofPath nofun, trivial⟩, trivial⟩
  have hpassing : passing.Formed :=
    ⟨⟨⟨hlinked hf, nofun⟩, hlinked hg, trivial⟩, trivial⟩
  refine ⟨by decide +kernel, render_roots rfl htemplate ?_ ?_⟩
  · exact ⟨⟨.inl rfl, ⟨.inl rfl, trivial, trivial⟩, trivial, trivial⟩, trivial⟩
  · rintro name t (_ | ⟨_, ⟨⟩⟩)
    exact ⟨hpassing, ⟨trivial, trivial⟩, trivial⟩

open AtTheTop in
/-- An item of the whole data stands in its place. -/
theorem Run.render_roots_overAll :
    overAll.Formed ∧ items.isFunction = false ∧
      ∃ c ∈ ((render (env []) overAll).left (.start items)).calls, c.root ≠ items := by
  have hkey : ∀ key : String, ∀ k ∈ [Key.ofPath key true], k.Formed := by
    rintro key k (_ | ⟨_, ⟨⟩⟩)
    exact Key.formed_ofPath nofun
  have hcalls : ((render (env []) overAll).left (.start items)).calls.any
      (fun c => !c.root.isArray) = true := by decide +kernel
  obtain ⟨c, hc, harray⟩ := List.any_eq_true.1 hcalls
  refine ⟨⟨⟨⟨hkey "", nofun⟩, hkey "g", trivial⟩, trivial⟩, rfl, c, hc, ?_⟩
  intro hroot
  rw [hroot] at harray
  cases harray

end TextTemplate
