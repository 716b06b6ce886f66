import TextTemplate.Proofs.Roots.Bindings

/-!
The first pass over a template that spares the top. It keeps the tree rooted, wherever it stands, and
what it leaves for the second pass spares the top again.
-/
namespace TextTemplate
variable {φ : Type}

namespace Run

variable {data : Value φ} {env : Env φ} {s : Session φ} {scope : ScopeId} {inside : Bool}
  {inc : Inclusion → ScopeId → Run φ String}

/-- Where the first pass stands: at `scope`, which is below the top if `inside` says so and it is in
scope. What it leaves is read from below the top if `later` says so. -/
structure StagesAt (t : ScopeTree φ) (scope : ScopeId) (inScope : Bool) (waiting : List ScopeId)
    (strict inside later : Bool) : Prop where
  lt : scope < t.scopes.size
  below : inScope = true → inside = true → scope ≠ ScopeTree.root
  leaves : inside = true → later = true ∨ inScope = true ∧ waiting = []
  loose : strict = false → later = true ∨ waiting = []

theorem StagesAt.mono {t t' : ScopeTree φ} {inScope : Bool} {waiting : List ScopeId}
    {strict later : Bool} (h : StagesAt t scope inScope waiting strict inside later)
    (he : t.Extends t') : StagesAt t' scope inScope waiting strict inside later :=
  { h with lt := he.lt h.lt }

/-- Nothing is asked of a scope that is not known to be below the top, as long as what is left there
may be loose. -/
theorem StagesAt.outside {t : ScopeTree φ} {inScope : Bool} {waiting : List ScopeId}
    {strict later : Bool} (hlt : scope < t.scopes.size)
    (hloose : strict = false → later = true ∨ waiting = []) :
    StagesAt t scope inScope waiting strict false later :=
  ⟨hlt, fun _ h => absurd h Bool.false_ne_true, fun h => absurd h Bool.false_ne_true, hloose⟩

/-- Nodes that are left for the second pass: they are formed and spare the top. -/
abbrev Spared (data : Value φ) (strict inside : Bool) (nodes : List Node) : Prop :=
  Node.AllFormed nodes ∧ Node.AllSpareTop data strict inside nodes

/-- Included templates are given the whole data as such. -/
abbrev RootedInclusions (data : Value φ) (inc : Inclusion → ScopeId → Run φ String) : Prop :=
  ∀ i {s : Session φ} {scope : ScopeId}, s.Rooted data → scope < s.tree.scopes.size →
    Leads (Session.Rooted data) s (inc i scope) fun _ _ => True

theorem mustWait_of_inScope (t : ScopeTree φ) (b : Binding) : mustWait t b true [] = false := by
  simp [mustWait]

theorem inScope_of_not_mustWait {t : ScopeTree φ} {b : Binding} {inScope : Bool}
    {waiting : List ScopeId} (h : ¬mustWait t b inScope waiting = true)
    (hc : b.key.inContext = true) : inScope = true := by
  cases inScope with
  | true => rfl
  | false =>
    refine absurd (List.any_eq_true.2 ⟨b.key, List.mem_cons_self, ?_⟩) h
    simp [hc]

/-- The first pass over nodes keeps trees with one top, wherever it stands. -/
abbrev StagesRooted (data : Value φ) (env : Env φ) (inc : Inclusion → ScopeId → Run φ String)
    (nodes : List Node) : Prop :=
  ∀ {s : Session φ} {scope : ScopeId} {inScope : Bool} {waiting : List ScopeId}
    {strict inside later : Bool}, s.Rooted data →
    StagesAt s.tree scope inScope waiting strict inside later → Spared data strict inside nodes →
    Leads (Session.Rooted data) s (stageNodes env inc scope inScope waiting nodes) fun staged _ =>
      Spared data strict later staged

/-- A section that has to wait is left as it stands. -/
theorem StagesAt.keeps {t : ScopeTree φ} {inScope : Bool} {waiting : List ScopeId}
    {strict later : Bool} (hat : StagesAt t scope inScope waiting strict inside later)
    {head : Section} {body : List Node} (hf : (Node.block head body).Formed)
    (hn : (Node.block head body).SparesTop data strict inside)
    (hwaits : mustWait t head.binding inScope waiting = true ∨ head.key.inContext = false) :
    Spared data strict later [.block head body] := by
  refine ⟨⟨hf, trivial⟩, ?_, trivial⟩
  rcases hwaits with hwaits | habsolute
  · refine hn.mono _ (fun h => h) fun hinside => ?_
    rcases hat.leaves hinside with hlater | ⟨rfl, rfl⟩
    · exact hlater
    · rw [mustWait_of_inScope] at hwaits
      cases hwaits
  · exact hn.of_absolute habsolute

/-- Where the first pass stands in a repeated section, whose items are below the top. -/
theorem StagesAt.items {t t' : ScopeTree φ} {inScope : Bool} {waiting : List ScopeId}
    {strict later : Bool} (hat : StagesAt t scope inScope waiting strict inside later)
    (he : t.Extends t') {head : Section} (hincl : head.inclusive = true) (inner : ScopeId) :
    StagesAt t' scope false (inner :: waiting) (strict || !head.key.leadsBelow inside)
      (!strict && head.inclusive && head.key.leadsBelow inside)
      (!strict && head.inclusive && head.key.leadsBelow inside) where
  lt := he.lt hat.lt
  below := nofun
  leaves := .inl
  loose h := .inl (by simpa [hincl] using h)

/-- Where the first pass stands in a section that is not repeated. -/
theorem StagesAt.flattened {t : ScopeTree φ} {inScope : Bool} {waiting : List ScopeId}
    {strict later : Bool} (hat : StagesAt t scope inScope waiting strict inside later)
    {head : Section} {inner : ScopeId} (hlt : inner < t.scopes.size)
    (hne : head.key.leadsBelow inside = true → inner ≠ ScopeTree.root) :
    StagesAt t inner true waiting (strict || !head.key.leadsBelow inside)
      (!strict && head.inclusive && head.key.leadsBelow inside) later where
  lt := hlt
  below _ h := hne (by simp only [Bool.and_eq_true] at h; exact h.2)
  leaves h := by
    simp only [Bool.and_eq_true, Bool.not_eq_true'] at h
    exact (hat.loose h.1.1).imp_right fun hw => ⟨rfl, hw⟩
  loose h := by
    simp only [Bool.or_eq_false_iff] at h
    exact hat.loose h.1

theorem path_rooted {t : ScopeTree φ} (ht : t.Rooted data) (hscope : scope < t.scopes.size) :
    t.path scope = "" ∨ isNamed (t.path scope) = true := by
  by_cases hne : scope = ScopeTree.root
  · exact .inl (hne ▸ ht.path)
  · exact .inr (ht.below scope hscope hne).2.2

section Bodies

variable {head : Section} {body : List Node} {inScope : Bool} {waiting : List ScopeId}
  {strict later : Bool}

/-- The body of an exclusive section, staged at the scope around the section. -/
theorem StagesRooted.around (hbody : StagesRooted data env inc body) (hs : s.Rooted data)
    (hat : StagesAt s.tree scope inScope waiting strict inside later)
    (hincl : head.inclusive = false) (hf : Node.AllFormed body)
    (hn : (Node.block head body).SparesTop data strict inside) :
    Leads (Session.Rooted data) s (stageNodes env inc scope inScope waiting body) fun staged _ =>
      Spared data strict later staged := by
  rw [Node.SparesTop, if_neg (by rw [Section.passesText_of_exclusive hincl]; decide), hincl,
    Bool.and_false, Bool.false_and] at hn
  have hat' : StagesAt s.tree scope inScope waiting (strict || !head.key.leadsBelow inside)
      false later :=
    .outside hat.lt fun h => hat.loose (by simp at h; exact h.1)
  refine (hbody hs hat' ⟨hf, hn.2⟩).weaken fun staged _ _ _ hst => ⟨hst.1, ?_⟩
  exact Node.AllSpareTop.mono staged (fun h => by simp [h]) (fun h => h) hst.2

/-- The copy that is left of a section whose text is passed on. -/
theorem StagesRooted.passed (hbody : StagesRooted data env inc body) (hs : s.Rooted data)
    (hat : StagesAt s.tree scope inScope waiting strict inside later)
    (hf : (Node.block head body).Formed) (hp : head.passesText = true)
    (hn : (Node.block head body).SparesTop data strict inside) (id : ScopeId) (path : String) :
    Leads (Session.Rooted data) s (do
      return [.block (head.anchored path)
        (← stageNodes env inc scope inScope (id :: waiting) body)]) fun staged _ =>
      Spared data strict later staged := by
  rw [Node.SparesTop, if_pos hp] at hn
  have hat' : StagesAt s.tree scope inScope (id :: waiting) true false false :=
    .outside hat.lt fun h => absurd h.symm Bool.false_ne_true
  refine (hbody hs hat' ⟨hf.2, hn⟩).bind fun staged s' _ hs' hst => .pure hs' ?_
  refine ⟨⟨⟨hf.1.anchored _, hst.1⟩, trivial⟩, ?_, trivial⟩
  rw [Node.SparesTop, Section.passesText_anchored, if_pos hp]
  exact hst.2

variable {r : Resolution φ}

/-- The copy that is left of a section over a sequence. -/
theorem StagesRooted.copied (hbody : StagesRooted data env inc body) (hs : s.Rooted data)
    (hat : StagesAt s.tree scope inScope waiting strict inside later)
    (hf : (Node.block head body).Formed) (hp : head.passesText = false)
    (hincl : head.inclusive = true)
    (hn : (Node.block head body).SparesTop data strict inside)
    (hr : Placed data s.tree head.binding inside r)
    (hbelow : head.key.inContext = true → inside = true → scope ≠ ScopeTree.root) :
    Leads (Session.Rooted data) s (do
      let inner ← innerScope r
      return [.block (head.anchored (s.tree.path scope))
        (← stageNodes env inc scope false (inner :: waiting) body)]) fun staged _ =>
      Spared data strict later staged := by
  rw [Node.SparesTop, if_neg (by rw [hp]; exact Bool.false_ne_true)] at hn
  obtain ⟨hspares, hnbody⟩ := hn
  refine (rooted_innerScope hs hr (hr.spares hspares)).bind fun inner s' he hs' _ => ?_
  refine (hbody hs' (hat.items he hincl inner) ⟨hf.2, hnbody⟩).bind fun staged _ _ hs'' hst =>
    .pure hs'' ⟨⟨⟨hf.1.anchored _, hst.1⟩, trivial⟩, ?_, trivial⟩
  refine .copy (path_rooted hs.tree hat.lt) (fun hc hinside => ?_) hp hspares hst.2
  exact (hs.tree.below scope hat.lt (hbelow hc hinside)).2.2

/-- What is left of a section that is not repeated: its body, staged at the scope found. -/
theorem StagesRooted.flattened (hbody : StagesRooted data env inc body) (hs : s.Rooted data)
    (hat : StagesAt s.tree scope inScope waiting strict inside later)
    (hf : Node.AllFormed body) (hp : head.passesText = false)
    (hn : (Node.block head body).SparesTop data strict inside)
    (hr : Placed data s.tree head.binding inside r) :
    Leads (Session.Rooted data) s (do
      let inner ← innerScope r
      stageNodes env inc inner true waiting body) fun staged _ =>
      Spared data strict later staged := by
  rw [Node.SparesTop, if_neg (by rw [hp]; exact Bool.false_ne_true)] at hn
  obtain ⟨hspares, hnbody⟩ := hn
  refine (rooted_innerScope hs hr (hr.spares hspares)).bind fun inner s' he hs' hinner => ?_
  have hin := (hat.mono he).flattened hinner.1 fun hl => hinner.2 (hr.below hl)
  refine (hbody hs' hin ⟨hf, hnbody⟩).weaken fun staged _ _ _ hst => ⟨hst.1, ?_⟩
  exact Node.AllSpareTop.mono staged (fun h => by simp [h]) (fun h => h) hst.2

theorem rooted_stageBlock (hbody : StagesRooted data env inc body) (hs : s.Rooted data)
    (hat : StagesAt s.tree scope inScope waiting strict inside later)
    (hf : (Node.block head body).Formed)
    (hn : (Node.block head body).SparesTop data strict inside) :
    Leads (Session.Rooted data) s (stageNode env inc scope inScope waiting (.block head body))
      fun staged _ => Spared data strict later staged := by
  have hnothing : Spared data strict later [] := ⟨trivial, trivial⟩
  rw [stageNode]
  refine .look ?_
  split
  · rename_i hwaits
    exact .pure hs (hat.keeps hf hn (.inl hwaits))
  · rename_i hwaits
    have hbelow : head.key.inContext = true → inside = true → scope ≠ ScopeTree.root :=
      fun hc => hat.below (inScope_of_not_mustWait hwaits hc)
    refine (rooted_resolve hs hat.lt (by simp) hf.1.keys hbelow).bind fun r s' he hs' hr => ?_
    have hat' := hat.mono he
    cases r with
    | none =>
      dsimp only
      split
      · refine (rooted_missing hs' head.raw).bind fun _ s'' he' hs'' _ => ?_
        split
        · exact .pure hs'' hnothing
        · rename_i hincl
          exact hbody.around hs'' (hat'.mono he') (by simpa using hincl) hf.2 hn
      · rename_i hmissing
        refine .pure hs' (hat.keeps hf hn (.inr ?_))
        cases hc : head.key.inContext with
        | false => rfl
        | true => simp [hc, inScope_of_not_mustWait hwaits hc] at hmissing
    | some r =>
      refine .look ?_
      have hr := hr r rfl
      dsimp only
      split
      · rename_i hp
        exact hbody.passed hs' hat' hf hp hn r.scope _
      · rename_i hp
        have hp : head.passesText = false := by simpa using hp
        split
        · split
          · rename_i hexcl
            split
            · exact hbody.around hs' hat' (by simpa using hexcl) hf.2 hn
            · exact .pure hs' hnothing
          · rename_i hincl
            split
            · exact .pure hs' hnothing
            · exact hbody.copied hs' hat' hf hp (by simpa using hincl) hn hr hbelow
        · refine (rooted_display hs' _ _ _).bind fun shown s'' he'' hs'' _ => ?_
          split
          · exact hbody.flattened hs'' (hat'.mono he'') hf.2 hp hn (hr.mono he'')
          · exact .pure hs'' hnothing

end Bodies

mutual

theorem rooted_stageNode (hinc : RootedInclusions data inc) : (node : Node) →
    ∀ {s : Session φ} {scope : ScopeId} {inScope : Bool} {waiting : List ScopeId}
      {strict inside later : Bool}, s.Rooted data →
    StagesAt s.tree scope inScope waiting strict inside later → node.Formed →
    node.SparesTop data strict inside →
    Leads (Session.Rooted data) s (stageNode env inc scope inScope waiting node) fun staged _ =>
      Spared data strict later staged
  | .text text, _, _, _, _, _, _, _, hs, _, _, _ => by
    rw [stageNode]
    exact .pure hs ⟨⟨trivial, trivial⟩, trivial, trivial⟩
  | .inclusion i, _, _, _, _, _, _, _, hs, hat, hf, _ => by
    rw [stageNode]
    split
    · exact .pure hs ⟨⟨hf, trivial⟩, trivial, trivial⟩
    · exact (hinc i hs hat.lt).bind fun _ _ _ hs' _ =>
        .pure hs' ⟨⟨trivial, trivial⟩, trivial, trivial⟩
  | .tag tag, s, scope, inScope, waiting, strict, inside, later, hs, hat, hf, _ => by
    have hkept : Spared data strict later [.tag tag] := ⟨⟨hf, trivial⟩, trivial, trivial⟩
    rw [stageNode]
    refine .look ?_
    split
    · exact .pure hs hkept
    · refine (rooted_resolve hs hat.lt (by simp) hf fun _ h => absurd h Bool.false_ne_true).bind
        fun r s' _ hs' _ => ?_
      cases r with
      | some r => exact .pure hs' ⟨⟨trivial, trivial⟩, trivial, trivial⟩
      | none =>
        dsimp only
        split
        · exact (rooted_missing hs' tag.raw).bind fun _ _ _ hs'' _ =>
            .pure hs'' ⟨trivial, trivial⟩
        · exact .pure hs' hkept
  | .block head body, _, _, _, _, _, _, _, hs, hat, hf, hn =>
    rooted_stageBlock (rooted_stageNodes hinc body) hs hat hf hn

theorem rooted_stageNodes (hinc : RootedInclusions data inc) : (nodes : List Node) →
    StagesRooted data env inc nodes
  | [], _, _, _, _, _, _, _, hs, _, _ => by
    rw [stageNodes]
    exact .pure hs ⟨trivial, trivial⟩
  | node :: nodes, s, scope, inScope, waiting, strict, inside, later, hs, hat, hn => by
    rw [stageNodes]
    refine (rooted_stageNode hinc node hs hat hn.1.1 hn.2.1).bind fun a s' he hs' ha => ?_
    refine (rooted_stageNodes hinc nodes hs' (hat.mono he) ⟨hn.1.2, hn.2.2⟩).bind
      fun b s'' _ hs'' hb =>
      .pure hs'' ⟨Node.everyOf_append.2 ⟨ha.1, hb.1⟩, Node.allSpareTop_append ha.2 hb.2⟩

end

end Run

end TextTemplate
