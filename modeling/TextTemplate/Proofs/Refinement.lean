import TextTemplate.Proofs.Inclusions
import TextTemplate.Proofs.Nodes
import TextTemplate.Proofs.Resolution

/-!
Rendering on a scope tree is rendering over places. Both passes, and the templates they include,
come to the same text or the same error when nothing is remembered between one binding and the next,
as long as functions depend on their arguments alone and no section formats what its functions return.
-/
namespace TextTemplate
variable {φ : Type}

/-- What the passes need to know of a section over `data`. -/
def Section.Sound (data : Value φ) (s : Section) : Prop :=
  s.binding.Formed ∧ (data.isData = true ∨ s.binding.Unformatted)

theorem Section.Sound.anchored {data : Value φ} {s : Section} (h : s.Sound data) (path : String) :
    (s.anchored path).Sound data := by
  refine ⟨fun key hk => ?_, h.2.imp_right fun ⟨hf, he, hl⟩ => ⟨hf, he, fun link hm => ?_⟩⟩
  · rw [Section.keys_anchored] at hk
    obtain ⟨key, hm, rfl⟩ := List.mem_map.1 hk
    exact (h.1 key hm).anchored path
  · obtain ⟨link', hm', rfl⟩ := List.mem_map.1 hm
    exact hl link' hm'

/-- Nodes that both ways of rendering treat alike, with the templates they may include. -/
abbrev Node.Sound (allowed : Inclusion → Prop) (data : Value φ) : Node → Prop :=
  Node.Every (fun t => t.binding.Formed) allowed (Section.Sound data)

abbrev Node.AllSound (allowed : Inclusion → Prop) (data : Value φ) : List Node → Prop :=
  Node.EveryOf (fun t => t.binding.Formed) allowed (Section.Sound data)

namespace Run

variable {env : Env φ} {data : Value φ} {t : ScopeTree φ} {allowed : Inclusion → Prop}

/-- Scopes that stand at paths. -/
abbrev Waits (t : ScopeTree φ) : List ScopeId → List String → Prop :=
  List.Forall₂ fun id path => id < t.scopes.size ∧ t.path id = path

theorem Waits.mono {waiting : List ScopeId} {paths : List String} (h : Waits t waiting paths)
    {t' : ScopeTree φ} (he : t.Extends t') : Waits t' waiting paths :=
  h.imp fun id _ ⟨hlt, hp⟩ => ⟨he.lt hlt, by rw [he.path id hlt, hp]⟩

theorem mustWait_eq {waiting : List ScopeId} {paths : List String} (h : Waits t waiting paths)
    (b : Binding) (inScope : Bool) :
    mustWait t b inScope waiting = Treeless.mustWait b inScope paths := by
  have hany : ∀ key, (waiting.any fun scope => t.covers scope key) =
      paths.any fun path => pathCovers path key := by
    intro key
    induction h with
    | nil => rfl
    | cons hid _ ih => rw [List.any_cons, List.any_cons, ih, ScopeTree.covers, hid.2]
  simp only [mustWait, Treeless.mustWait, hany]

/-- Included templates come out the same on a tree and over places. -/
def Includes (env : Env φ) (allowed : Inclusion → Prop) (data : Value φ)
    (inc : Inclusion → ScopeId → Run φ String)
    (inc' : Inclusion → Place φ → Except TemplateError String) : Prop :=
  ∀ t i id p, allowed i → ScopeTree.Stands t id p →
    Follows env.host env.settings.errorOnFuncFailure data t (inc i id) (inc' i p) fun _ a b => a = b

variable {inc : Inclusion → ScopeId → Run φ String}
  {inc' : Inclusion → Place φ → Except TemplateError String}

/-- Both first passes leave the same of the nodes, and what they leave is sound. -/
def StagesTo (env : Env φ) (allowed : Inclusion → Prop) (data : Value φ)
    (inc : Inclusion → ScopeId → Run φ String)
    (inc' : Inclusion → Place φ → Except TemplateError String) (nodes : List Node) : Prop :=
  ∀ {t : ScopeTree φ} {scope : ScopeId} {place : Place φ} (inScope : Bool)
    {waiting : List ScopeId} {paths : List String}, t.Stands scope place →
    Waits t waiting paths → Node.AllSound allowed data nodes →
    Follows env.host env.settings.errorOnFuncFailure data t
      (stageNodes env inc scope inScope waiting nodes)
      (Treeless.stageNodes env data inc' place inScope paths nodes)
      fun _ a b => a = b ∧ Node.AllSound allowed data b

section Block

variable {head : Section} {body : List Node} {scope : ScopeId} {place : Place φ}
  {waiting : List ScopeId} {paths : List String} (htame : Tame env.host data)
  (hbody : StagesTo env allowed data inc inc' body) (hhead : head.Sound data)
  (hn : Node.AllSound allowed data body)

include hbody hhead hn in
/-- What the first pass leaves of a section whose body waits for the second. -/
theorem StagesTo.copied (inScope : Bool) (path : String) (hp : t.Stands scope place)
    (hw : Waits t waiting paths) :
    Follows env.host env.settings.errorOnFuncFailure data t
      (do return [.block (head.anchored path) (← stageNodes env inc scope inScope waiting body)])
      (do return [.block (head.anchored path)
        (← Treeless.stageNodes env data inc' place inScope paths body)])
      fun _ a b => a = b ∧ Node.AllSound allowed data b :=
  (hbody inScope hp hw hn).bind fun _ _ _ _ _ _ hab => by
    obtain ⟨rfl, ha⟩ := hab
    exact .pure fun _ _ _ => ⟨rfl, ⟨hhead.anchored path, ha⟩, trivial⟩

include htame hbody hhead hn in
private theorem follows_stageBlock (inScope : Bool) (hp : t.Stands scope place)
    (hw : Waits t waiting paths) :
    Follows env.host env.settings.errorOnFuncFailure data t
      (stageNode env inc scope inScope waiting (.block head body))
      (Treeless.stageNode env data inc' place inScope paths (.block head body))
      fun _ a b => a = b ∧ Node.AllSound allowed data b := by
  have hkept : ∀ t, Follows env.host env.settings.errorOnFuncFailure data t
      (pure [.block head body]) (.ok [.block head body])
      fun _ a b => a = b ∧ Node.AllSound allowed data b :=
    fun _ => .pure fun _ _ _ => ⟨rfl, ⟨hhead, hn⟩, trivial⟩
  have hdropped : ∀ t, Follows env.host env.settings.errorOnFuncFailure data t (pure []) (.ok [])
      fun _ a b => a = b ∧ Node.AllSound allowed data b :=
    fun _ => .pure fun _ _ _ => ⟨rfl, trivial⟩
  rw [stageNode, Treeless.stageNode]
  refine .look fun t₁ he₁ _ => ?_
  rw [mustWait_eq (hw.mono he₁)]
  replace hp := hp.mono he₁
  replace hw := hw.mono he₁
  split
  · exact hkept t₁
  · refine (follows_resolve htame hhead.1 hp .nil).bind fun t₂ r r' he₂ _ _ hr => ?_
    replace hp := hp.mono he₂
    replace hw := hw.mono he₂
    cases hr with
    | none =>
      dsimp only
      split
      · refine (follows_missing head.raw).bind fun t₃ _ _ he₃ _ _ _ => ?_
        split
        · exact hdropped t₃
        · exact hbody inScope (hp.mono he₃) (hw.mono he₃) hn
      · exact hkept t₂
    | @some r r' hr =>
      refine .look fun t₃ he₃ _ => ?_
      replace hp := hp.mono he₃
      replace hw := hw.mono he₃
      replace hr := hr.mono he₃
      dsimp only
      rw [hp.path, ← hr.isRepeating, ← hr.size, ← hr.value]
      cases hpass : head.passesText with
      | true =>
        exact hbody.copied hhead hn inScope place.path hp (.cons ⟨hr.scope.1, hr.scope.path⟩ hw)
      | false =>
        simp only [Bool.false_eq_true, if_false]
        split
        · split
          · split
            · exact hbody inScope hp hw hn
            · exact hdropped t₃
          · split
            · exact hdropped t₃
            · refine (follows_innerScope hr hhead.2 hpass).bindOk fun t₄ id he₄ _ hid => ?_
              exact hbody.copied hhead hn false place.path (hp.mono he₄)
                (.cons ⟨hid.1.1, hid.1.path⟩ (hw.mono he₄))
        · refine (follows_display htame _ hr.clean _).bind fun t₄ a b he₄ _ _ hab => ?_
          subst hab
          split
          · refine (follows_innerScope (hr.mono he₄) hhead.2 hpass).bindOk fun t₅ id he₅ _ hid => ?_
            exact hbody true hid.1 (hw.mono (he₄.trans he₅)) hn
          · exact hdropped t₄

end Block

mutual

private theorem follows_stageNode (htame : Tame env.host data)
    (hinc : Includes env allowed data inc inc') :
    (node : Node) → ∀ {t : ScopeTree φ} {scope : ScopeId} {place : Place φ} (inScope : Bool)
      {waiting : List ScopeId} {paths : List String}, t.Stands scope place →
      Waits t waiting paths → Node.Sound allowed data node →
      Follows env.host env.settings.errorOnFuncFailure data t
        (stageNode env inc scope inScope waiting node)
        (Treeless.stageNode env data inc' place inScope paths node)
        fun _ a b => a = b ∧ Node.AllSound allowed data b
  | .text text, t, scope, place, inScope, waiting, paths, hp, hw, hn => by
    rw [stageNode, Treeless.stageNode]
    exact .pure fun _ _ _ => ⟨rfl, trivial, trivial⟩
  | .inclusion i, t, scope, place, inScope, waiting, paths, hp, hw, hn => by
    rw [stageNode, Treeless.stageNode]
    split
    · exact .pure fun _ _ _ => ⟨rfl, hn, trivial⟩
    · refine (hinc t i scope place hn hp).bind fun t' a b _ _ _ hab => ?_
      subst hab
      exact .pure fun _ _ _ => ⟨rfl, trivial, trivial⟩
  | .tag tag, t, scope, place, inScope, waiting, paths, hp, hw, hn => by
    rw [stageNode, Treeless.stageNode]
    refine .look fun t' he _ => ?_
    rw [mustWait_eq (hw.mono he)]
    split
    · exact .pure fun _ _ _ => ⟨rfl, hn, trivial⟩
    · refine (follows_resolve htame hn (hp.mono he) .nil).bind fun t'' r r' _ _ _ hr => ?_
      cases hr with
      | none =>
        dsimp only
        split
        · refine (follows_missing tag.raw).bind fun _ _ _ _ _ _ _ => ?_
          exact .pure fun _ _ _ => ⟨rfl, trivial⟩
        · exact .pure fun _ _ _ => ⟨rfl, hn, trivial⟩
      | some hr => exact .pure fun _ _ _ => ⟨by rw [hr.value], trivial, trivial⟩
  | .block head body, t, scope, place, inScope, waiting, paths, hp, hw, hn =>
    follows_stageBlock htame (fun inScope _ _ hp hw hn =>
      follows_stageNodes htame hinc body inScope hp hw hn) hn.1 hn.2 inScope hp hw

private theorem follows_stageNodes (htame : Tame env.host data)
    (hinc : Includes env allowed data inc inc') :
    (nodes : List Node) → ∀ {t : ScopeTree φ} {scope : ScopeId} {place : Place φ} (inScope : Bool)
      {waiting : List ScopeId} {paths : List String}, t.Stands scope place →
      Waits t waiting paths → Node.AllSound allowed data nodes →
      Follows env.host env.settings.errorOnFuncFailure data t
        (stageNodes env inc scope inScope waiting nodes)
        (Treeless.stageNodes env data inc' place inScope paths nodes)
        fun _ a b => a = b ∧ Node.AllSound allowed data b
  | [], t, scope, place, inScope, waiting, paths, hp, hw, hn => by
    rw [stageNodes, Treeless.stageNodes]
    exact .pure fun _ _ _ => ⟨rfl, trivial⟩
  | node :: nodes, t, scope, place, inScope, waiting, paths, hp, hw, hn => by
    rw [stageNodes, Treeless.stageNodes]
    refine (follows_stageNode htame hinc node inScope hp hw hn.1).bind fun t' a b he _ _ hab => ?_
    obtain ⟨rfl, ha⟩ := hab
    refine (follows_stageNodes htame hinc nodes inScope (hp.mono he) (hw.mono he) hn.2).bind
      fun t'' c d _ _ _ hcd => ?_
    obtain ⟨rfl, hc⟩ := hcd
    exact .pure fun _ _ _ => ⟨rfl, Node.everyOf_append.2 ⟨ha, hc⟩⟩

end

/-- Bodies of sections that come out the same on a tree and over places. -/
def Bodies (env : Env φ) (data : Value φ) (body : ScopeId → List ScopeId → Run φ String)
    (body' : Place φ → List (Place φ) → Except TemplateError String) : Prop :=
  ∀ t id p os ps, ScopeTree.Stands t id p → List.Forall₂ t.Stands os ps →
    Follows env.host env.settings.errorOnFuncFailure data t (body id os) (body' p ps)
      fun _ a b => a = b

variable {scope : ScopeId} {place : Place φ} {overlays : List ScopeId} {places : List (Place φ)}

private theorem follows_settleNode (htame : Tame env.host data)
    (hinc : Includes env allowed data inc inc')
    (hp : t.Stands scope place) (ho : List.Forall₂ t.Stands overlays places)
    (expanded : Option String) {node : Node} (hn : Node.Sound allowed data node) :
    Follows env.host env.settings.errorOnFuncFailure data t
      (settleNode env inc scope overlays expanded node)
      (Treeless.settleNode env data inc' place places expanded node) fun _ a b => a = b := by
  cases node with
  | text text => exact .pure fun _ _ _ => rfl
  | block head body => exact .pure fun _ _ _ => rfl
  | inclusion i => exact hinc t i scope place hn hp
  | tag tag =>
    refine (follows_resolve htame hn hp ho).bind fun t' r r' _ _ _ hr => ?_
    cases hr with
    | none => exact (follows_missing tag.raw).bind fun _ _ _ _ _ _ _ => .pure fun _ _ _ => rfl
    | some hr => exact .pure fun _ _ _ => by rw [hr.value]

private theorem follows_settleLevel (htame : Tame env.host data)
    (hinc : Includes env allowed data inc inc')
    (hp : t.Stands scope place) (ho : List.Forall₂ t.Stands overlays places)
    (level : List (Node × Option String)) (hn : ∀ n ∈ level, Node.Sound allowed data n.1) :
    Follows env.host env.settings.errorOnFuncFailure data t
      (settleLevel env inc scope overlays level)
      (Treeless.settleLevel env data inc' place places level) fun _ a b => a = b := by
  induction level generalizing t with
  | nil => exact .pure fun _ _ _ => rfl
  | cons n rest ih =>
    refine (follows_settleNode htame hinc hp ho n.2 (hn n List.mem_cons_self)).bind
      fun t' a b he _ _ hab => ?_
    subst hab
    refine (ih (hp.mono he) (stands_mono ho he) fun m hm => hn m (List.mem_cons_of_mem _ hm)).bind
      fun t'' c d _ _ _ hcd => ?_
    subst hcd
    exact .pure fun _ _ _ => rfl

private theorem follows_expandItems (htame : Tame env.host data) (raw : String)
    {body : ScopeId → List ScopeId → Run φ String}
    {body' : Place φ → List (Place φ) → Except TemplateError String}
    (hbody : Bodies env data body body') (hp : t.Stands scope place) (hr : t.Ready scope)
    (ho : List.Forall₂ t.Stands overlays places) (indices : List Nat) :
    Follows env.host env.settings.errorOnFuncFailure data t
      (expandItems env raw body scope overlays indices)
      (Treeless.expandItems env data raw body' place places indices) fun _ a b => a = b := by
  induction indices generalizing t with
  | nil => exact .pure fun _ _ _ => rfl
  | cons index rest ih =>
    have hitem : Treeless.expandItems env data raw body' place places (index :: rest) =
        (place.read env.host (env.policy raw) >>= fun v => .ok (place.item v index)) >>=
          fun item => item.read env.host (env.policy raw) >>= fun w =>
            Treeless.display env data true w raw >>= fun shown =>
              if shown then body' item (item :: places) >>= fun text =>
                Treeless.expandItems env data raw body' place places rest >>= fun texts =>
                  pure (text :: texts)
              else Treeless.expandItems env data raw body' place places rest := by
      rw [Treeless.expandItems, bind_assoc]
      rfl
    rw [hitem, expandItems]
    refine (follows_item htame hp hr raw index).bind fun t₁ id p he₁ _ _ hid => ?_
    refine (follows_value htame hid raw).bind fun t₂ v w he₂ _ _ ⟨hv, _, hclean⟩ => ?_
    subst hv
    refine (follows_display htame true hclean raw).bind fun t₃ a b he₃ _ _ hab => ?_
    subst hab
    have he := he₁.trans (he₂.trans he₃)
    have hid' := hid.mono (he₂.trans he₃)
    split
    · refine (hbody t₃ id p _ _ hid' (.cons hid' (stands_mono ho he))).bind
        fun t₄ text text' he₄ _ _ htext => ?_
      subst htext
      have he' := he.trans he₄
      refine (ih (hp.mono he') (he'.isReady hp.1 hr) (stands_mono ho he')).bind
        fun t₅ texts texts' _ _ _ htexts => ?_
      subst htexts
      exact .pure fun _ _ _ => rfl
    · exact ih (hp.mono he) (he.isReady hp.1 hr) (stands_mono ho he)

private theorem follows_expandSection (htame : Tame env.host data) {head : Section}
    (hs : head.Sound data)
    {body : ScopeId → List ScopeId → Run φ String}
    {body' : Place φ → List (Place φ) → Except TemplateError String}
    (hbody : Bodies env data body body') (hp : t.Stands scope place)
    (ho : List.Forall₂ t.Stands overlays places) :
    Follows env.host env.settings.errorOnFuncFailure data t
      (expandSection env head body scope overlays)
      (Treeless.expandSection env data head body' place places) fun _ a b => a = b := by
  refine (follows_resolve htame hs.1 hp ho).bind fun t₁ r r' he₁ hf₁ _ hr => ?_
  replace hp := hp.mono he₁
  replace ho := stands_mono ho he₁
  cases hr with
  | none =>
    refine (follows_missing head.raw).bind fun t₂ _ _ he₂ _ _ _ => ?_
    split
    · exact .pure fun _ _ _ => rfl
    · exact hbody t₂ _ _ _ _ (hp.mono he₂) (stands_mono ho he₂)
  | @some r r' hr =>
    dsimp only
    rw [← hr.isRepeating, ← hr.size, ← hr.value, ← hr.isDynamic, ← hr.functions]
    cases hpass : head.passesText with
    | true =>
      refine (hbody t₁ _ _ _ _ hp ho).bind fun t₂ a b _ _ _ hab => ?_
      subst hab
      have hsteps : env.host.IsPure ∨ (r.chain.map Prod.snd).zip head.links = [] :=
        htame.imp_right fun hd => by rw [chain_eq_nil hf₁ hd hr.chain]; rfl
      refine (follows_passThrough _ _ hsteps _).bind fun t₃ v w _ _ _ hv => ?_
      subst hv
      exact .pure fun _ _ _ => rfl
    | false =>
      simp only [Bool.false_eq_true, if_false]
      split
      · split
        · split
          · exact hbody t₁ _ _ _ _ hp ho
          · exact .pure fun _ _ _ => rfl
        · refine (follows_innerScope hr hs.2 hpass).bindOk fun t₂ id he₂ _ hid => ?_
          refine (follows_expandItems htame head.raw hbody hid.1 hid.2 (stands_mono ho he₂) _).bind
            fun t₃ a b _ _ _ hab => ?_
          subst hab
          exact .pure fun _ _ _ => rfl
      · refine (follows_display htame _ hr.clean _).bind fun t₂ a b he₂ _ _ hab => ?_
        subst hab
        split
        · refine (follows_innerScope (hr.mono he₂) hs.2 hpass).bindOk fun t₃ id he₃ _ hid => ?_
          refine hbody t₃ _ _ _ _ hid.1 ?_
          split
          · exact .cons hid.1 (stands_mono ho (he₂.trans he₃))
          · exact stands_mono ho (he₂.trans he₃)
        · exact .pure fun _ _ _ => rfl

theorem sound_of_mem_zip {nodes : List Node} (h : Node.AllSound allowed data nodes)
    {pieces : List (Option String)} : ∀ n ∈ nodes.zip pieces, Node.Sound allowed data n.1 := by
  induction nodes generalizing pieces with
  | nil => simp
  | cons node nodes ih =>
    cases pieces with
    | nil => simp
    | cons piece pieces =>
      intro n hn
      rcases List.mem_cons.1 (by simpa using hn) with rfl | hm
      · exact h.1
      · exact ih h.2 n hm

mutual

private theorem follows_expandNode (htame : Tame env.host data)
    (hinc : Includes env allowed data inc inc') :
    (node : Node) → ∀ {t : ScopeTree φ} {scope : ScopeId} {place : Place φ}
      {overlays : List ScopeId} {places : List (Place φ)}, t.Stands scope place →
      List.Forall₂ t.Stands overlays places → Node.Sound allowed data node →
      Follows env.host env.settings.errorOnFuncFailure data t
        (expandNode env inc scope overlays node)
        (Treeless.expandNode env data inc' place places node) fun _ a b => a = b
  | .text _, _, _, _, _, _, _, _, _
  | .inclusion _, _, _, _, _, _, _, _, _
  | .tag _, _, _, _, _, _, _, _, _ => by
    rw [expandNode, Treeless.expandNode]
    · exact .pure fun _ _ _ => rfl
    all_goals simp
  | .block head body, t, scope, place, overlays, places, hp, ho, hn => by
    rw [expandNode, Treeless.expandNode]
    have hbody : Bodies env data
        (fun scope overlays => do
          let pieces ← expandNodes env inc scope overlays body
          settleLevel env inc scope overlays (body.zip pieces))
        (fun place places => do
          let pieces ← Treeless.expandNodes env data inc' place places body
          Treeless.settleLevel env data inc' place places (body.zip pieces)) := by
      intro t id p os ps hid hos
      refine (follows_expandNodes htame hinc body hid hos hn.2).bind fun t' a b he _ _ hab => ?_
      subst hab
      exact follows_settleLevel htame hinc (hid.mono he) (stands_mono hos he) _
        (sound_of_mem_zip hn.2)
    refine (follows_expandSection htame hn.1 hbody hp ho).bind fun t' a b _ _ _ hab => ?_
    subst hab
    exact .pure fun _ _ _ => rfl

private theorem follows_expandNodes (htame : Tame env.host data)
    (hinc : Includes env allowed data inc inc') :
    (nodes : List Node) → ∀ {t : ScopeTree φ} {scope : ScopeId} {place : Place φ}
      {overlays : List ScopeId} {places : List (Place φ)}, t.Stands scope place →
      List.Forall₂ t.Stands overlays places → Node.AllSound allowed data nodes →
      Follows env.host env.settings.errorOnFuncFailure data t
        (expandNodes env inc scope overlays nodes)
        (Treeless.expandNodes env data inc' place places nodes) fun _ a b => a = b
  | [], _, _, _, _, _, _, _, _ => by
    rw [expandNodes, Treeless.expandNodes]
    exact .pure fun _ _ _ => rfl
  | node :: nodes, t, scope, place, overlays, places, hp, ho, hn => by
    rw [expandNodes, Treeless.expandNodes]
    refine (follows_expandNode htame hinc node hp ho hn.1).bind fun t' a b he _ _ hab => ?_
    subst hab
    refine (follows_expandNodes htame hinc nodes (hp.mono he) (stands_mono ho he) hn.2).bind
      fun t'' c d _ _ _ hcd => ?_
    subst hcd
    exact .pure fun _ _ _ => rfl

end

theorem follows_renderNodes (htame : Tame env.host data) (hinc : Includes env allowed data inc inc')
    (hp : t.Stands scope place) {nodes : List Node} (hn : Node.AllSound allowed data nodes) :
    Follows env.host env.settings.errorOnFuncFailure data t (renderNodes env inc scope nodes)
      (Treeless.renderNodes env data inc' place nodes) fun _ a b => a = b := by
  refine (follows_stageNodes htame hinc nodes true hp .nil hn).bind fun t' a b he _ _ hab => ?_
  obtain ⟨rfl, ha⟩ := hab
  refine (follows_expandNodes htame hinc a (hp.mono he) .nil ha).bind fun t'' c d he' _ _ hcd => ?_
  subst hcd
  exact follows_settleLevel htame hinc (hp.mono (he.trans he')) .nil _ (sound_of_mem_zip ha)

/-- A run on a tree of its own leaves the tree around it alone. -/
private theorem follows_nested {inner : ScopeTree φ} {data' : Value φ} {body : Run φ String}
    {body' : Except TemplateError String}
    (hf : inner.Faithful env.host env.settings.errorOnFuncFailure data')
    (hbody : Follows env.host env.settings.errorOnFuncFailure data' inner body body'
      fun _ a b => a = b) :
    Follows env.host env.settings.errorOnFuncFailure data t (nested inner body)
      (.ok body'.toOption) fun _ a b => a = b := by
  intro s _ hs
  have hrun := hbody ⟨inner, s.calls⟩ (.refl _) hf
  cases body' with
  | error e =>
    obtain ⟨s', hrun, -, -⟩ := hrun
    exact ⟨none, { s with calls := s'.calls }, by simp [nested, hrun], .refl _, hs, rfl⟩
  | ok text =>
    obtain ⟨a, s', hrun, -, -, rfl⟩ := hrun
    exact ⟨some a, { s with calls := s'.calls }, by simp [nested, hrun], .refl _, hs, rfl⟩

theorem allSound_mono {data' : Value φ} (h : data.isData = true → data'.isData = true)
    {nodes : List Node} (hn : Node.AllSound allowed data nodes) : Node.AllSound allowed data' nodes :=
  Node.EveryOf.imp (fun _ ht => ht) (fun _ hi => hi) (fun _ ⟨hb, hd⟩ => ⟨hb, hd.imp_left h⟩)
    nodes hn

/-- What an included template starts from stands where its place says. -/
theorem startOf_faithful (hd : data.isFunction = false) {path : String} {v : Value φ}
    (hv : v.isFunction = false) (hclean : data.isData = true → v.isData = true) :
    (ScopeTree.newAt data path v).2.Faithful env.host env.settings.errorOnFuncFailure
        (Treeless.startOf data path v).2 ∧
      (ScopeTree.newAt data path v).2.Stands (ScopeTree.newAt data path v).1
        (Treeless.startOf data path v).1 ∧
      (Treeless.startOf data path v).2.isFunction = false ∧
      (data.isData = true → (Treeless.startOf data path v).2.isData = true) := by
  by_cases hpath : path = ""
  · have hf := ScopeTree.faithful_new env.host env.settings.errorOnFuncFailure hv
    simp only [ScopeTree.newAt, Treeless.startOf, hpath, String.isEmpty_iff, if_true]
    exact ⟨hf, ⟨hf.top_lt, hf.top_place⟩, hv, hclean⟩
  · obtain ⟨hf, hlt, hplace⟩ := ScopeTree.faithful_newAt env.host
      env.settings.errorOnFuncFailure hd hpath hclean
    simp only [Treeless.startOf, hpath, String.isEmpty_iff, if_false]
    exact ⟨hf, ⟨hlt, hplace⟩, hd, fun h => h⟩

theorem simulates_notThere {I : ScopeTree φ → Prop} (i : Inclusion) :
    Simulates I t (notThere env i)
      (do
        if env.settings.errorOnMissingTags then throw (.missingPartial i.key.text i.raw)
        return "") fun _ a b => a = b := by
  rw [notThere]
  split
  · exact .throw
  · exact .pure fun _ _ _ => rfl

private theorem follows_included {data' : Value φ} (htame : Tame env.host data') {levels : Nat}
    (hinc : Includes env allowed data' (includeText env levels) (Treeless.includeText env data' levels))
    (i : Inclusion) {template : Template} (hn : Node.AllSound allowed data' template.nodes)
    {start : ScopeId × ScopeTree φ} {place : Place φ}
    (hf : start.2.Faithful env.host env.settings.errorOnFuncFailure data')
    (hp : start.2.Stands start.1 place) :
    Follows env.host env.settings.errorOnFuncFailure data t (included env levels i template start)
      (match Treeless.renderNodes env data' (Treeless.includeText env data' levels) place
          template.nodes with
        | .error _ => return ""
        | .ok text =>
          if i.format.isSome || i.escape then
            return formatValue env.numbers i.format i.escape (.string (φ := φ) text)
          else return text) fun _ a b => a = b := by
  refine (follows_nested hf (follows_renderNodes htame hinc hp hn)).bindOk fun t' text _ _ htext => ?_
  subst htext
  cases Treeless.renderNodes env data' (Treeless.includeText env data' levels) place
    template.nodes with
  | error e => exact .pure fun _ _ _ => rfl
  | ok text =>
    simp only [Except.toOption]
    split
    · exact .pure fun _ _ _ => rfl
    · exact .pure fun _ _ _ => rfl

theorem follows_includeText (levels : Nat) {data : Value φ} (htame : Tame env.host data)
    (hd : data.isFunction = false)
    (ht : ∀ name template, (name, template) ∈ env.templates →
      Node.AllSound (fun _ => True) data template.nodes) :
    Includes env (fun _ => True) data (includeText env levels)
      (Treeless.includeText env data levels) := by
  induction levels generalizing data with
  | zero =>
    intro t i scope place _ hp
    cases hl : env.templates.lookup i.key.text with
    | none =>
      rw [includeText_none hl, Treeless.includeText, hl]
      exact simulates_notThere i
    | some template =>
      rw [includeText_zero hl, Treeless.includeText, hl]
      exact .pure fun _ _ _ => rfl
  | succ levels ih =>
    intro t i scope place _ hp
    cases hl : env.templates.lookup i.key.text with
    | none =>
      rw [includeText_none hl, Treeless.includeText, hl]
      exact simulates_notThere i
    | some template =>
      have hn := ht _ template (ScopeTree.mem_of_lookup hl)
      rw [includeText_succ hl, Treeless.includeText, hl]
      refine .look fun t₁ he₁ hf₁ => ?_
      rw [hf₁.data_root]
      dsimp only
      split
      · refine (follows_value htame (hp.mono he₁) i.raw).bind
          fun t₂ v w he₂ _ hread ⟨hv, _, hclean⟩ => ?_
        subst hv
        refine .look fun t₃ he₃ _ => ?_
        rw [((hp.mono he₁).mono (he₂.trans he₃)).path]
        obtain ⟨hf, hstands, hd', hdata⟩ :=
          startOf_faithful hd (Place.read_not_function hread) hclean
        have htame' := htame.imp_right hdata
        exact follows_included htame' (ih htame' hd' fun name template hm =>
          allSound_mono hdata (ht name template hm)) i (allSound_mono hdata hn) hf hstands
      · have hf := ScopeTree.faithful_new env.host env.settings.errorOnFuncFailure hd
        exact follows_included htame (ih htame hd ht) i hn hf ⟨hf.top_lt, hf.top_place⟩

/-- What a render comes to: its text or its error. -/
def outcome (env : Env φ) (template : Template) (data : Value φ) : Except TemplateError String :=
  match render env template (.start data) with
  | .ok text _ => .ok text
  | .error e _ => .error e

theorem outcome_eq_ending (template : Template) :
    outcome env template data = (render env template).ending (.start data) := by
  rw [outcome, ending]
  cases render env template (.start data) <;> rfl

/-- **Rendering needs no memory.** A render comes to what the passes over places come to. -/
theorem outcome_eq_treeless (htame : Tame env.host data) (hd : data.isFunction = false)
    (hinc : Includes env allowed data (includeText env maxPartialDepth)
      (Treeless.includeText env data maxPartialDepth))
    {template : Template} (hn : Node.AllSound allowed data template.nodes) :
    outcome env template data = Treeless.render env template data := by
  have hf := ScopeTree.faithful_new env.host env.settings.errorOnFuncFailure hd
  rw [outcome_eq_ending]
  exact (follows_renderNodes htame hinc ⟨hf.top_lt, hf.top_place⟩ hn).ending
    (s := .start data) (.refl _) hf

end Run

/-- A render with options that parse is a run. -/
theorem Template.render_result (host : Host φ) (template : Template) (data : Value φ)
    (options : RenderOptions) :
    (template.render host data options).result = options.compilePartials >>= fun templates =>
      Run.outcome ⟨host, options.toSettings, options.numbers, templates⟩ template data := by
  rw [Template.render]
  cases options.compilePartials with
  | error e => rfl
  | ok templates =>
    simp only [bind, Except.bind, Run.outcome]
    cases Run.render ⟨host, options.toSettings, options.numbers, templates⟩ template (.start data) <;>
      rfl

end TextTemplate
