import TextTemplate.Proofs.OnePass
import TextTemplate.Proofs.PaddedLevels

/-!
Templates included in context. Over data without functions the passes go by nothing but the value
around them when all keys are read in context. So an included template, rendered in a tree of its own
from a copy of the scope around its tag, comes to the text of its nodes written in place of the tag.
-/
namespace TextTemplate
variable {φ : Type}

namespace Node

mutual

/-- The node with `body` in place of the template `name` included in context. -/
def inline (name : String) (body : List Node) : Node → List Node
  | text t => [text t]
  | tag t => [tag t]
  | inclusion i => if i.key.inContext ∧ i.key.text = name then body else [inclusion i]
  | block head nodes => [block head (inlineAll name body nodes)]

def inlineAll (name : String) (body : List Node) : List Node → List Node
  | [] => []
  | node :: nodes => inline name body node ++ inlineAll name body nodes

end

/-- Nodes without links whose keys are all read in context, with the templates they may include. -/
abbrev AllLocal (allowed : Inclusion → Prop) : List Node → Prop :=
  EveryOf (fun t => t.Plain ∧ t.key.inContext = true) allowed
    fun s => s.Plain ∧ s.key.inContext = true

variable {allowed : Inclusion → Prop}

theorem AllLocal.plain {nodes : List Node} (h : AllLocal allowed nodes) :
    AllPlainWith allowed nodes :=
  EveryOf.imp (fun _ ht => ht.1) (fun _ hi => hi) (fun _ hs => hs.1) nodes h

theorem AllLocal.sound (data : Value φ) {nodes : List Node} (h : AllLocal allowed nodes) :
    AllSound (fun _ => True) data nodes :=
  EveryOf.imp (fun _ ht => ht.1.formed) (fun _ _ => trivial)
    (fun s hs => ⟨hs.1.formed, .inr ⟨rfl, rfl, by simp [Section.binding, hs.1.links]⟩⟩) nodes h

mutual

private theorem allLocal_inline {name : String} {body : List Node} (hb : AllLocal allowed body) :
    (node : Node) → AllLocal allowed [node] → AllLocal allowed (inline name body node)
  | text _, h => h
  | tag _, h => h
  | inclusion i, h => by
    rw [inline]
    split
    · exact hb
    · exact h
  | block head nodes, h => ⟨⟨h.1.1, allLocal_inlineAll hb nodes h.1.2⟩, trivial⟩

theorem allLocal_inlineAll {name : String} {body : List Node} (hb : AllLocal allowed body) :
    (nodes : List Node) → AllLocal allowed nodes → AllLocal allowed (inlineAll name body nodes)
  | [], h => h
  | node :: nodes, h => everyOf_append.2
    ⟨allLocal_inline hb node ⟨h.1, trivial⟩, allLocal_inlineAll hb nodes h.2⟩

end

end Node

namespace Treeless

variable {env : Env φ} {data : Value φ} {inc : Inclusion → Place φ → Except TemplateError String}
  {allowed : Inclusion → Prop} {place base : Place φ}

private theorem mustWait_local {b : Binding} (hl : b.links = []) (hc : b.key.inContext = true)
    (inScope : Bool) (waiting : List String) : mustWait b inScope waiting = !inScope := by
  rw [mustWait_plain hl, if_pos hc]

mutual

/-- Where there is no scope yet, the first pass leaves everything as it is. -/
private theorem stageNode_local (hi : ∀ i, allowed i → i.key.inContext = true)
    (waiting : List String) :
    (node : Node) → Node.AllLocal allowed [node] →
      stageNode env data inc place false waiting node = .ok [node]
  | .text _, _ => by
    rw [stageNode]
    rfl
  | .tag tag, hn => by
    rw [stageNode, mustWait_local hn.1.1.links hn.1.2]
    rfl
  | .inclusion i, hn => by
    rw [stageNode, hi i hn.1]
    rfl
  | .block head body, hn => stage_waits (by rw [mustWait_local hn.1.1.1.links hn.1.1.2]; rfl)

private theorem stageNodes_local (hi : ∀ i, allowed i → i.key.inContext = true)
    (waiting : List String) :
    (nodes : List Node) → Node.AllLocal allowed nodes →
      stageNodes env data inc place false waiting nodes = .ok nodes
  | [], _ => by
    rw [stageNodes]
    rfl
  | node :: nodes, hn => by
    rw [stageNodes, stageNode_local hi waiting node ⟨hn.1, trivial⟩,
      stageNodes_local hi waiting nodes hn.2]
    rfl

end

/-- The copy of a repeated section comes to the same below the place as where the section stands. -/
private theorem nodeText_copy {head : Section} {body : List Node} {q : Place φ} (hhead : head.Plain)
    (hkey : head.key.inContext = true)
    (hin : Place.Within env.host env.settings.errorOnFuncFailure base place)
    (hf : place.search env.host (env.policy head.binding.raw) head.key = .ok (some q)) (hq : q.Clean)
    (ha : q.bound.isArray = true) (hincl : head.inclusive = true) :
    nodeText env data inc base [] (.block (head.anchored place.path) body) =
      nodeText env data inc place [] (.block head body) := by
  have hresolve : ∀ {p : Place φ} {s : Section}, s.links = [] →
      p.search env.host (env.policy s.raw) s.key = .ok (some q) →
      resolve env data s.binding p [] = .ok (some (.plain q q.bound)) := fun {p s} hl hs => by
    have hsearch : p.search env.host (env.policy s.binding.raw) s.binding.key = .ok (some q) := hs
    rw [resolve_plain hl, findPlace_nil, hsearch]
    simp only [bind, Except.bind, hq.read]
  have hl : (head.anchored place.path).links = [] := by simp [Section.anchored, hhead.links]
  have hpasses : (head.anchored place.path).passesText = false := hhead.passes
  have hincl' : (head.anchored place.path).inclusive = true := hincl
  rw [nodeText, nodeText,
    expand_found hpasses hq.bound (hresolve hl (OnePass.copy_found hin hhead.key hkey hq hf ha)),
    expand_found hhead.passes hq.bound (hresolve hhead.links hf)]
  simp only [ha, hincl, hincl', if_true]
  rfl

mutual

/-- From where the passes begin, both come to what the second alone comes to. -/
private theorem stagedNodeText_local (hoff : env.settings.errorOnMissingTags = false)
    (hi : ∀ i, allowed i → i.key.inContext = true) : (node : Node) →
    ∀ {place : Place φ} (waiting : List String), Node.AllLocal allowed [node] → place.Clean →
    Place.Within env.host env.settings.errorOnFuncFailure base place →
    stagedNodeText env data inc place true waiting base [] node =
      nodeText env data inc place [] node
  | .text text, _, _, _, _, _ => by
    rw [stagedNodeText, stageNode, pure_bind]
    exact levelText_text text
  | .inclusion i, place, waiting, hn, _, _ => by
    rw [stagedNodeText, stageNode, nodeText, settleNode] <;> [skip; simp]
    simp only [Bool.not_true, Bool.and_false, Bool.false_eq_true, if_false]
    cases inc i place with
    | error e => rfl
    | ok text => exact (levelText_text text : levelText env data inc base [] _ = _)
  | .tag tag, place, waiting, hn, hc, _ => by
    have hw : mustWait tag.binding true waiting = false := mustWait_local hn.1.1.links hn.1.2 _ _
    rw [stagedNodeText, stageNode, hw, nodeText, settleNode] <;> [skip; simp]
    rcases resolve_bare env data (b := tag.binding) hn.1.1.links hc with ⟨-, hr⟩ | ⟨q, -, -, hr⟩
    · rw [hr]
      simp only [hn.1.2, Bool.and_self, bind, Except.bind, missing_off hoff]
      exact (levelText_nil : levelText env data inc base [] _ = _)
    · rw [hr]
      exact (levelText_text _ : levelText env data inc base [] _ = _)
  | .block head body, place, waiting, hn, hc, hin => by
    obtain ⟨⟨hhead, hkey⟩, hbody⟩ := hn.1
    have hw : mustWait head.binding true waiting = false := mustWait_local hhead.links hkey _ _
    have hempty : levelText env data inc base [] [] = some "" := levelText_nil
    rcases resolve_bare env data (b := head.binding) hhead.links hc with ⟨-, hr⟩ | ⟨q, hf, hq, hr⟩
    · rw [stagedNodeText, stage_missing hw hr, nodeText, expand_missing hr, missing_off hoff, hkey]
      cases head.inclusive with
      | true => exact hempty
      | false => exact stagedText_local hoff hi body waiting hbody hc hin
    · rw [findPlace_nil] at hf
      have hqin := hin.trans (Place.search_within hhead.key (.inl hkey) hf).1
      rw [stagedNodeText, stage_found hhead.passes hw hq.bound hr, nodeText,
        expand_found hhead.passes hq.bound hr]
      cases ha : q.bound.isArray with
      | false =>
        simp only [Bool.false_eq_true, if_false]
        split
        · exact stagedText_local hoff hi body waiting hbody hq hqin
        · exact hempty
      | true =>
        simp only [if_true]
        cases hincl : head.inclusive with
        | false =>
          simp only [Bool.false_eq_true, if_false]
          split
          · exact stagedText_local hoff hi body waiting hbody hc hin
          · exact hempty
        | true =>
          simp only [if_true]
          by_cases hsize : q.bound.size = 0
          · rw [hsize, if_pos rfl, expandItems_none]
            exact hempty
          · rw [if_neg hsize, stageNodes_local hi _ body hbody]
            change levelText env data inc base [] [.block (head.anchored place.path) body] = _
            rw [levelText_singleton, nodeText_copy hhead hkey hin hf hq ha hincl, nodeText,
              expand_found hhead.passes hq.bound hr]
            simp only [ha, hincl, if_true]

private theorem stagedText_local (hoff : env.settings.errorOnMissingTags = false)
    (hi : ∀ i, allowed i → i.key.inContext = true) : (nodes : List Node) →
    ∀ {place : Place φ} (waiting : List String), Node.AllLocal allowed nodes → place.Clean →
    Place.Within env.host env.settings.errorOnFuncFailure base place →
    stagedText env data inc place true waiting base [] nodes = levelText env data inc place [] nodes
  | [], _, _, _, _, _ => by rw [stagedText_nil, levelText_nil]
  | node :: nodes, _, waiting, hn, hc, hin => by
    rw [stagedText_cons, levelText_cons,
      stagedNodeText_local hoff hi node waiting ⟨hn.1, trivial⟩ hc hin,
      stagedText_local hoff hi nodes waiting hn.2 hc hin]

end

/-- Walks from places that hold the same value end at places that do. -/
private theorem walk_alike (host : Host φ) (policy : FailurePolicy) {p q : Place φ} (hp : p.Clean)
    (hq : q.Clean) (h : q.bound = p.bound) (joined : String) (segments : List String) :
    ∃ r r', p.walk host policy joined segments = .ok r ∧ q.walk host policy joined segments = .ok r' ∧
      Option.Rel (fun x y => y.1.bound = x.1.bound) r r' := by
  induction segments generalizing p q joined with
  | nil =>
    refine ⟨_, _, rfl, rfl, ?_⟩
    split
    · exact .some h
    · exact .none
  | cons segment segments ih =>
    simp only [Place.walk, hp.read, hq.read, h, bind, Except.bind]
    split
    · exact ih hp hq h _
    · split
      · exact ⟨_, _, rfl, rfl, .some h⟩
      · cases hw : p.bound.get? (joined ++ segment) with
        | none => exact ih hp hq h _
        | some w => exact ih (hp.child hw) (hq.child (h ▸ hw)) rfl _

/-- A binding without links whose key is read in context. -/
private theorem resolve_alike (env : Env φ) (data data' : Value φ) {b : Binding} (hl : b.links = [])
    (hc : b.key.inContext = true) {p q : Place φ} (hp : p.Clean) (hq : q.Clean)
    (h : q.bound = p.bound) (os os' : List (Place φ)) :
    (resolve env data b p os = .ok none ∧ resolve env data' b q os' = .ok none) ∨
      ∃ x y, x.Clean ∧ y.Clean ∧ y.bound = x.bound ∧
        resolve env data b p os = .ok (some (.plain x x.bound)) ∧
        resolve env data' b q os' = .ok (some (.plain y y.bound)) := by
  have hfind : ∀ (p : Place φ) os, findPlace env.host (env.policy b.raw) p os b.key =
      p.search env.host (env.policy b.raw) b.key := fun p os => by
    rw [findPlace, if_pos hc]
  have hsearch : ∀ p : Place φ, p.search env.host (env.policy b.raw) b.key =
      p.walk env.host (env.policy b.raw) "" b.key.segments >>= fun r => .ok (r.map Prod.fst) :=
    fun p => by rw [Place.search, if_pos hc]; rfl
  obtain ⟨r, r', hr, hr', hrel⟩ :=
    walk_alike env.host (env.policy b.raw) hp hq h "" b.key.segments
  obtain ⟨_, hclean, hx⟩ := hp.walk env.host (env.policy b.raw) "" b.key.segments
  obtain ⟨_, hclean', hy⟩ := hq.walk env.host (env.policy b.raw) "" b.key.segments
  cases hr.symm.trans hclean
  cases hr'.symm.trans hclean'
  rw [resolve_plain hl, resolve_plain hl, hfind, hfind, hsearch, hsearch, hr, hr']
  cases hrel with
  | none => exact .inl ⟨rfl, rfl⟩
  | @some x y hxy =>
    have hx := hx x rfl
    have hy := hy y rfl
    refine .inr ⟨x.1, y.1, hx, hy, hxy, ?_, ?_⟩
    · simp only [bind, Except.bind, Option.map_some, hx.read]
    · simp only [bind, Except.bind, Option.map_some, hy.read]

variable {data' : Value φ} {inc' : Inclusion → Place φ → Except TemplateError String}

mutual

/-- Nodes that include nothing come to the same wherever the same value is around them. -/
private theorem nodeText_alike (hoff : env.settings.errorOnMissingTags = false) : (node : Node) →
    ∀ {p q : Place φ} (os os' : List (Place φ)), Node.AllLocal (fun _ => False) [node] → p.Clean →
    q.Clean → q.bound = p.bound →
    nodeText env data inc p os node = nodeText env data' inc' q os' node
  | .text _, _, _, _, _, _, _, _, _ => rfl
  | .inclusion _, _, _, _, _, hn, _, _, _ => hn.1.elim
  | .tag tag, p, q, os, os', hn, hp, hq, h => by
    rw [nodeText, nodeText, settleNode, settleNode]
    · rcases resolve_alike env data data' (b := tag.binding) hn.1.1.links hn.1.2 hp hq h os os' with
        ⟨hr, hr'⟩ | ⟨x, y, -, -, hxy, hr, hr'⟩
      · rw [hr, hr']
      · rw [hr, hr', hxy]
        rfl
    all_goals simp
  | .block head body, p, q, os, os', hn, hp, hq, h => by
    obtain ⟨⟨hhead, hkey⟩, hbody⟩ := hn.1
    have hlevel : ∀ {x y : Place φ} (xs ys : List (Place φ)), x.Clean → y.Clean →
        y.bound = x.bound → (expandLevel env data inc x xs body).toOption =
          (expandLevel env data' inc' y ys body).toOption := fun xs ys hx hy hxy =>
      levelText_alike hoff body xs ys hbody hx hy hxy
    rw [nodeText, nodeText]
    rcases resolve_alike env data data' (b := head.binding) hhead.links hkey hp hq h os os' with
      ⟨hr, hr'⟩ | ⟨x, y, hx, hy, hxy, hr, hr'⟩
    · rw [expand_missing hr, expand_missing hr', missing_off hoff]
      cases head.inclusive with
      | true => rfl
      | false => exact hlevel os os' hp hq h
    · rw [expand_found hhead.passes hx.bound hr, expand_found hhead.passes hy.bound hr', hxy]
      split
      · split
        · rw [toOption_bind, toOption_bind]
          refine congrArg (Option.bind · _) ?_
          generalize List.range x.bound.size = indices
          induction indices with
          | nil => rfl
          | cons i rest ih =>
            have hitem : (y.item y.bound i).bound = (x.item x.bound i).bound := by
              rw [hxy]
              rfl
            rw [expandItems_cons hx.bound (hx.item i).bound,
              expandItems_cons hy.bound (hy.item i).bound, hitem, ih,
              hlevel _ _ (hx.item i) (hy.item i) hitem]
        · split
          · exact hlevel os os' hp hq h
          · rfl
      · split
        · exact hlevel os os' hx hy hxy
        · rfl

private theorem levelText_alike (hoff : env.settings.errorOnMissingTags = false) :
    (nodes : List Node) →
    ∀ {p q : Place φ} (os os' : List (Place φ)), Node.AllLocal (fun _ => False) nodes → p.Clean →
    q.Clean → q.bound = p.bound →
    levelText env data inc p os nodes = levelText env data' inc' q os' nodes
  | [], _, _, _, _, _, _, _, _ => by rw [levelText_nil, levelText_nil]
  | node :: nodes, _, _, os, os', hn, hp, hq, h => by
    rw [levelText_cons, levelText_cons, nodeText_alike hoff node os os' ⟨hn.1, trivial⟩ hp hq h,
      levelText_alike hoff nodes os os' hn.2 hp hq h]

end

/-- Without errors for what is missing, nothing goes wrong in including a template. -/
theorem includeText_ok (hoff : env.settings.errorOnMissingTags = false) (hc : place.Clean)
    (levels : Nat) (i : Inclusion) : ∃ text, includeText env data levels i place = .ok text := by
  cases hl : env.templates.lookup i.key.text with
  | none => exact ⟨"", by cases levels <;> simp [includeText, hl, hoff, pure, Except.pure]⟩
  | some template =>
    cases levels with
    | zero => exact ⟨"", by rw [includeText, hl]; rfl⟩
    | succ levels =>
      rw [includeText, hl]
      simp only [hc.read, bind, Except.bind, pure, Except.pure]
      -- In context or not, what goes wrong inside is no text.
      split <;> split
      · exact ⟨"", rfl⟩
      · split <;> exact ⟨_, rfl⟩
      · exact ⟨"", rfl⟩
      · split <;> exact ⟨_, rfl⟩

theorem startOf_clean (hd : data.isData = true) (hc : place.Clean) :
    (startOf data place.path place.bound).1.Clean ∧
      (startOf data place.path place.bound).1.bound = place.bound := by
  rw [startOf]
  split
  · exact ⟨.top hc.bound, rfl⟩
  · refine ⟨⟨hc.bound, fun a ha => ?_⟩, rfl⟩
    rw [List.mem_singleton.1 ha]
    exact hd

/-- A render from a place comes to what the second pass comes to there. -/
private theorem renderNodes_local (hoff : env.settings.errorOnMissingTags = false)
    (hi : ∀ i, allowed i → i.key.inContext = true) (hinc : IncludesFail env allowed inc)
    {nodes : List Node} (hn : Node.AllLocal allowed nodes) (hc : place.Clean) :
    ∃ text, renderNodes env data inc place nodes = .ok text ∧
      levelText env data inc place [] nodes = some text := by
  have hstaged : (renderNodes env data inc place nodes).toOption =
      levelText env data inc place [] nodes :=
    stagedText_local hoff hi nodes [] hn hc .base
  have hfails : FailsMissing env (fun _ => True) (renderNodes env data inc place nodes) :=
    renderNodes_fails hinc hc hn.plain
  cases hr : renderNodes env data inc place nodes with
  | error e =>
    rw [hr] at hfails
    exact absurd (hoff.symm.trans hfails.1) (by simp)
  | ok text =>
    rw [hr] at hstaged
    exact ⟨text, rfl, hstaged.symm⟩

/-- A template included in context comes to the text of its nodes. -/
private theorem includeText_local (hoff : env.settings.errorOnMissingTags = false)
    (hd : data.isData = true)
    {i : Inclusion} (hi : i.key.inContext = true) (hf : i.format = none) (he : i.escape = false)
    {template : Template} (hl : env.templates.lookup i.key.text = some template)
    (hn : Node.AllLocal (fun _ => False) template.nodes) (hc : place.Clean) (levels : Nat)
    (overlays : List (Place φ)) :
    (includeText env data (levels + 1) i place).toOption =
      levelText env data inc place overlays template.nodes := by
  obtain ⟨hstart, hbound⟩ := startOf_clean hd hc
  rw [includeText, hl]
  simp only [hi, hc.read, hf, he, bind, Except.bind, pure, Except.pure, if_true]
  generalize startOf data place.path place.bound = start at hstart hbound
  have hinc : IncludesFail env (fun _ => False) (includeText env start.2 levels) :=
    fun _ _ hi => hi.elim
  obtain ⟨text, hrender, htext⟩ : ∃ text,
      renderNodes env start.2 (includeText env start.2 levels) start.1 template.nodes = .ok text ∧
        levelText env start.2 (includeText env start.2 levels) start.1 [] template.nodes = some text :=
    renderNodes_local hoff (fun _ hi => hi.elim) hinc hn hstart
  rw [hrender, ← levelText_alike hoff template.nodes [] overlays hn hstart hc hbound.symm, htext]
  rfl

mutual

/-- Written in place of the tags that include it, a template makes the same text. -/
private theorem nodeText_inline {name : String} {body : List Node}
    (hbody : ∀ i p os, i.key.inContext = true → i.key.text = name → allowed i → p.Clean →
      (inc i p).toOption = levelText env data inc p os body) : (node : Node) →
    ∀ {p : Place φ} {os : List (Place φ)}, Node.AllLocal allowed [node] → Stance env data p os →
    levelText env data inc p os (node.inline name body) = nodeText env data inc p os node
  | .text _, _, _, _, _ => levelText_singleton _
  | .tag _, _, _, _, _ => levelText_singleton _
  | .inclusion i, p, os, hn, hst => by
    rw [Node.inline]
    split
    · rename_i hi
      rw [← hbody i p os hi.1 hi.2 hn.1 hst.clean]
      rfl
    · exact levelText_singleton _
  | .block head nodes, p, os, hn, hst => by
    rw [Node.inline, levelText_singleton, nodeText, nodeText]
    exact expandSection_congr fun q xs henters =>
      levelText_inline hbody nodes hn.1.2 (hst.enter (.of_plain hn.1.1.1) henters)

private theorem levelText_inline {name : String} {body : List Node}
    (hbody : ∀ i p os, i.key.inContext = true → i.key.text = name → allowed i → p.Clean →
      (inc i p).toOption = levelText env data inc p os body) : (nodes : List Node) →
    ∀ {p : Place φ} {os : List (Place φ)}, Node.AllLocal allowed nodes → Stance env data p os →
    levelText env data inc p os (Node.inlineAll name body nodes) = levelText env data inc p os nodes
  | [], _, _, _, _ => by rw [Node.inlineAll]
  | node :: nodes, _, _, hn, hst => by
    rw [Node.inlineAll, levelText_append, levelText_cons,
      nodeText_inline hbody node ⟨hn.1, trivial⟩ hst, levelText_inline hbody nodes hn.2 hst]

end

end Treeless

/-- Included templates in context, of which those named `name` have no format and no escape. -/
def Inclusion.Bare (name : String) (i : Inclusion) : Prop :=
  i.key.inContext = true ∧ (i.key.text = name → i.format = none ∧ i.escape = false)

open Treeless in
/-- A render comes to what the second pass comes to at the top. -/
private theorem Run.outcome_local (env : Env φ) (template : Template) {data : Value φ}
    (hd : data.isData = true) (hoff : env.settings.errorOnMissingTags = false)
    (ht : ∀ name t, (name, t) ∈ env.templates → t.Formed) {allowed : Inclusion → Prop}
    (hi : ∀ i, allowed i → i.key.inContext = true) (hn : Node.AllLocal allowed template.nodes) :
    ∃ text, outcome env template data = .ok text ∧
      levelText env data (Treeless.includeText env data maxPartialDepth) (.top data) []
        template.nodes = some text := by
  have hfun := Value.isFunction_of_isData hd
  rw [outcome_eq_treeless (.inr hd) hfun (follows_includeText maxPartialDepth (.inr hd) hfun
    fun name t hm => (ht name t hm).sound hd) (hn.sound data)]
  refine renderNodes_local hoff hi (fun i p _ hp => ?_) hn (.top hd)
  obtain ⟨text, htext⟩ := includeText_ok hoff hp maxPartialDepth i
  rw [htext]
  trivial

/-- **A template included in context is its nodes written in place.** Over data without functions, and
without errors for what is missing, a template in which all keys are read in context comes to the same
text when the nodes of another such template stand where that is included. -/
theorem Template.render_inlined (host : Host φ) {template included : Template} {name : String}
    {data : Value φ} (hd : data.isData = true) {options : RenderOptions} (ho : options.Formed)
    (hoff : options.errorOnMissingTags = false) {templates : List (String × Template)}
    (hc : options.compilePartials = .ok templates) (hl : templates.lookup name = some included)
    (ht : Node.AllLocal (Inclusion.Bare name) template.nodes)
    (hp : Node.AllLocal (fun _ => False) included.nodes) :
    ∃ text, (template.render host data options).result = .ok text ∧
      (Template.render host { template with
        nodes := Node.inlineAll name included.nodes template.nodes } data options).result =
          .ok text := by
  have hformed := RenderOptions.formed_of_compilePartials ho hc
  have hincluded : Node.AllLocal (Inclusion.Bare name) included.nodes :=
    hp.imp (fun _ h => h) (fun _ h => h.elim) (fun _ h => h) included.nodes
  rw [Template.render_result, Template.render_result, hc]
  let env : Env φ := ⟨host, options.toSettings, options.numbers, templates⟩
  obtain ⟨text, houtcome, htext⟩ :=
    Run.outcome_local env template hd hoff hformed (fun _ hi => hi.1) ht
  obtain ⟨text', houtcome', htext'⟩ := Run.outcome_local env
    { template with nodes := Node.inlineAll name included.nodes template.nodes } hd hoff hformed
    (fun _ hi => hi.1) (Node.allLocal_inlineAll hincluded template.nodes ht)
  refine ⟨text, houtcome, houtcome'.trans ?_⟩
  rw [Treeless.levelText_inline (fun i p os hi hname hbare hclean => ?_) template.nodes ht (.top hd),
    htext] at htext'
  · rw [Option.some.inj htext']
  · subst hname
    obtain ⟨hf, he⟩ := hbare.2 rfl
    exact Treeless.includeText_local hoff hd hi hf he hl hp hclean _ os

namespace Names

def key (path : String) : Key := .ofPath path true

def tag : Node := .tag ⟨"{{.name}}", none, key "name", [], none, false⟩

def each (path : String) (body : List Node) : Node :=
  .block ⟨⟨"", some .sectionInclude, key path, [], none, false⟩, key path, []⟩ body

def includes : Node := .inclusion ⟨"{{>.p}}", key "p", none, false⟩

/-- A name and the mark for it. -/
def included : Template :=
  ⟨[tag, each "mark" [.tag ⟨"{{.}}", none, key "", [], none, false⟩]], .default⟩

/-- The template at the top, in a section, in a loop and in a loop inside the loop. -/
def template : Template :=
  ⟨[includes, each "head" [includes], each "rows" [includes, each "cells" [includes]]], .default⟩

def named (name : String) (fields : List (String × Value Empty)) : Value Empty :=
  .record (("name", .string name) :: fields)

def data : Value Empty :=
  named "a" [("mark", .string ":"), ("head", named "b" []),
    ("rows", .array [named "c" [("cells", .array [named "d" [("mark", .string ".")], named "e" []])],
      named "f" [("cells", .array [named "g" []])]])]

def options : RenderOptions := { RenderOptions.default with partials := [("p", .compiled included)] }

end Names

open Names in
/-- What is included four times makes the text of its nodes each time. -/
theorem Template.render_inlined_names :
    (Template.render ⟨nofun⟩ template data options).result.toOption = some "a:bcd.efg" ∧
      (Template.render ⟨nofun⟩ { template with
        nodes := Node.inlineAll "p" included.nodes template.nodes } data options).result.toOption =
          some "a:bcd.efg" := by
  have hkey : ∀ path, (key path).Formed := fun _ => Key.formed_ofPath nofun
  have htag : ∀ raw path, Tag.Plain ⟨raw, none, key path, [], none, false⟩ ∧
      (key path).inContext = true := fun _ path => ⟨⟨hkey path, rfl⟩, rfl⟩
  have hhead : ∀ path, Section.Plain
      ⟨⟨"", some .sectionInclude, key path, [], none, false⟩, key path, []⟩ ∧
      (key path).inContext = true := fun path => ⟨⟨hkey path, rfl, rfl⟩, rfl⟩
  have hincludes : Inclusion.Bare "p" ⟨"{{>.p}}", key "p", none, false⟩ := ⟨rfl, fun _ => ⟨rfl, rfl⟩⟩
  have ht : Node.AllLocal (Inclusion.Bare "p") template.nodes :=
    ⟨hincludes, ⟨hhead _, hincludes, trivial⟩, ⟨hhead _, hincludes, ⟨hhead _, hincludes, trivial⟩,
      trivial⟩, trivial⟩
  have hp : Node.AllLocal (fun _ => False) included.nodes :=
    ⟨htag _ _, ⟨hhead _, htag _ _, trivial⟩, trivial⟩
  have ho : options.Formed := by
    rintro name t (_ | ⟨_, ⟨⟩⟩)
    exact Node.AllPlain.formed hp.plain
  have hresult : (Template.render ⟨nofun⟩ template data options).result.toOption =
      some "a:bcd.efg" := by decide +kernel
  have hd : data.isData = true := rfl
  obtain ⟨text, htext, hinlined⟩ := template.render_inlined ⟨nofun⟩ hd ho rfl rfl rfl ht hp
  refine ⟨hresult, ?_⟩
  rw [hinlined, ← hresult, htext]

end TextTemplate
