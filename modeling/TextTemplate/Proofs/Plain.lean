import TextTemplate.Proofs.Levels
import TextTemplate.Proofs.Nodes
import TextTemplate.Proofs.Place.Clean
import TextTemplate.Proofs.Place.Grounded
import TextTemplate.Proofs.Refinement

/-!
Templates without links, over data without functions. Their sections come to one of a few ends in the
first pass, which is without errors where nothing can be missing, and a level renders the same from
every place from which its keys are looked up alike.
-/
namespace TextTemplate
variable {φ : Type}

/-- A tag without links. -/
structure Tag.Plain (t : Tag) : Prop where
  key : t.key.Formed
  links : t.links = []

/-- A section without links. -/
structure Section.Plain (s : Section) : Prop where
  key : s.key.Formed
  links : s.links = []
  passes : s.passesText = false

theorem Tag.Plain.formed {t : Tag} (h : t.Plain) : t.binding.Formed := by
  intro key hk
  have hkey : key = t.key := by simpa [Binding.keys, Tag.binding, h.links] using hk
  exact hkey ▸ h.key

theorem Section.Plain.formed {s : Section} (h : s.Plain) : s.binding.Formed := by
  intro key hk
  have hkey : key = s.key := by simpa [Binding.keys, Section.binding, h.links] using hk
  exact hkey ▸ h.key

theorem Section.Plain.anchored {s : Section} (h : s.Plain) (path : String) :
    (s.anchored path).Plain :=
  ⟨h.key.anchored path, by simp [Section.anchored, h.links], h.passes⟩

namespace Node

/-- Text, tags and sections without links, and no included templates. -/
abbrev Plain : Node → Prop := Every Tag.Plain (fun _ => False) Section.Plain

abbrev AllPlain : List Node → Prop := EveryOf Tag.Plain (fun _ => False) Section.Plain

/-- Nodes whose keys are all seen from the whole data. -/
abbrev AllAbsolute : List Node → Prop :=
  EveryOf (fun t => t.key.inContext = false) (fun _ => True) fun s => s.key.inContext = false

/-- Nodes whose keys are all seen from the scope around them. -/
abbrev AllInContext : List Node → Prop :=
  EveryOf (fun t => t.key.inContext = true) (fun _ => True) fun s => s.key.inContext = true

theorem AllPlain.sound (data : Value φ) {nodes : List Node} (h : AllPlain nodes) :
    AllSound (fun _ => False) data nodes :=
  EveryOf.imp (fun _ ht => ht.formed) (fun _ hi => hi)
    (fun s hs => ⟨hs.formed, .inr ⟨rfl, rfl, by simp [Section.binding, hs.links]⟩⟩) nodes h

mutual

/-- Whether no key in context is read in the scope around the node. -/
def closed : Node → Bool
  | text _ => true
  | tag t => !t.key.inContext
  | inclusion i => !i.key.inContext
  | block head body => !head.key.inContext && (head.inclusive || allClosed body)

def allClosed : List Node → Bool
  | [] => true
  | node :: nodes => closed node && allClosed nodes

end

end Node

theorem Run.outcome_plain {env : Env φ} {data : Value φ} (hd : data.isData = true)
    {template : Template} (hn : Node.AllPlain template.nodes) :
    outcome env template data = Treeless.render env template data :=
  outcome_eq_treeless (.inr hd) (Value.isFunction_of_isData hd) (fun _ _ _ _ hi => hi.elim)
    (hn.sound data)

namespace Treeless

variable {env : Env φ} {data : Value φ}
  {inc : Inclusion → Place φ → Except TemplateError String}

section Plain

variable {head : Section} {body : List Node} {place q : Place φ} {inScope : Bool}
  {waiting : List String} {overlays : List (Place φ)} {v : Value φ}

theorem stage_waits (hw : mustWait head.binding inScope waiting = true) :
    stageNode env data inc place inScope waiting (.block head body) = .ok [.block head body] := by
  rw [stageNode, hw]
  rfl

theorem stage_missing (hw : mustWait head.binding inScope waiting = false)
    (hr : resolve env data head.binding place [] = .ok none) :
    stageNode env data inc place inScope waiting (.block head body) =
      if head.key.inContext && inScope then missing env head.raw >>= fun _ =>
        if head.inclusive then .ok []
        else stageNodes env data inc place inScope waiting body
      else .ok [.block head body] := by
  rw [stageNode, hw, hr]
  rfl

theorem stage_found (hp : head.passesText = false)
    (hw : mustWait head.binding inScope waiting = false) (hv : v.isData = true)
    (hr : resolve env data head.binding place [] = .ok (some (.plain q v))) :
    stageNode env data inc place inScope waiting (.block head body) =
      if v.isArray then
        if head.inclusive then
          if v.size = 0 then .ok []
          else stageNodes env data inc place false (q.path :: waiting) body >>= fun staged =>
            .ok [.block (head.anchored place.path) staged]
        else if v.size = 0 then stageNodes env data inc place inScope waiting body else .ok []
      else if shows env head.inclusive v then stageNodes env data inc q true waiting body
      else .ok [] := by
  rw [stageNode, hw, hr]
  simp only [Bool.false_eq_true, if_false, bind, Except.bind, hp, Resolution.plain_inner]
  simp only [Resolution.plain, Option.getD_some, display_clean hv, pure, Except.pure]
  cases head.inclusive <;> rfl

theorem expand_missing {render : Place φ → List (Place φ) → Except TemplateError String}
    (hr : resolve env data head.binding place overlays = .ok none) :
    expandSection env data head render place overlays =
      missing env head.raw >>= fun _ =>
        if head.inclusive then .ok "" else render place overlays := by
  rw [expandSection, hr]
  rfl

/-- What becomes in the first pass of a section whose head is found. -/
theorem fate_plain (hp : head.passesText = false)
    (hw : mustWait head.binding inScope waiting = false)
    (hr : resolve env data head.binding place [] = .ok (some (.plain q v))) {shown : Bool}
    (hv : display env data head.inclusive v head.raw = .ok shown) :
    fate env data place inScope waiting head = .ok (
      if v.isArray then
        if head.inclusive then if v.size = 0 then .hidden else .copied false q.path
        else if v.size = 0 then .flat place inScope else .hidden
      else if shown then .flat q true else .hidden) := by
  rw [fate, hw, hr]
  simp only [bind, Except.bind, hp, Resolution.plain_inner, Bool.false_eq_true, if_false]
  simp only [Resolution.plain, Option.getD_some, hv]
  by_cases ha : v.isArray = true
  · cases head.inclusive <;> simp [ha, pure, Except.pure] <;> rfl
  · simp [ha, pure, Except.pure]

/-- What comes of a section whose head is found in the second pass. -/
theorem expand_plain {render : Place φ → List (Place φ) → Except TemplateError String}
    (hp : head.passesText = false)
    (hr : resolve env data head.binding place overlays = .ok (some (.plain q v))) {shown : Bool}
    (hv : display env data head.inclusive v head.raw = .ok shown) :
    expandSection env data head render place overlays =
      if v.isArray then
        if head.inclusive then
          expandItems env data head.raw render q overlays (List.range v.size) >>= fun texts =>
            .ok (if head.list then Text.joinList texts else String.join texts)
        else if v.size = 0 then render place overlays else .ok ""
      else if shown then render q overlays else .ok "" := by
  rw [expandSection, hr]
  simp only [bind, Except.bind, hp, Resolution.plain_inner]
  simp only [Resolution.plain, Option.getD_some, hv, pure, Except.pure, Bool.false_eq_true, if_false]
  by_cases ha : v.isArray = true
  · cases head.inclusive
    · simp only [ha, if_true, Bool.not_false, Bool.false_eq_true, if_false]
      rfl
    · simp [ha]
  · simp [ha]

theorem expand_found {render : Place φ → List (Place φ) → Except TemplateError String}
    (hp : head.passesText = false) (hv : v.isData = true)
    (hr : resolve env data head.binding place overlays = .ok (some (.plain q v))) :
    expandSection env data head render place overlays =
      if v.isArray then
        if head.inclusive then
          expandItems env data head.raw render q overlays (List.range v.size) >>= fun texts =>
            .ok (if head.list then Text.joinList texts else String.join texts)
        else if v.size = 0 then render place overlays else .ok ""
      else if shows env head.inclusive v then render q overlays else .ok "" :=
  expand_plain hp hr (display_clean hv head.inclusive head.raw)

/-- A repeated section without items comes to nothing. -/
theorem expandItems_none {raw : String}
    {render : Place φ → List (Place φ) → Except TemplateError String} (list : Bool) :
    (expandItems env data raw render q overlays (List.range 0) >>= fun texts =>
      Except.ok (if list then Text.joinList texts else String.join texts)) = .ok "" := by
  cases list <;> rfl

end Plain

/-- Nothing that is missing can be an error in the first pass. -/
def Calm (env : Env φ) (inScope : Bool) (nodes : List Node) : Prop :=
  env.settings.errorOnMissingTags = false ∨ Node.AllAbsolute nodes ∨
    (inScope = false ∧ Node.AllInContext nodes)

theorem Calm.head {inScope : Bool} {node : Node} {nodes : List Node}
    (h : Calm env inScope (node :: nodes)) : Calm env inScope [node] :=
  h.imp_right fun h => h.imp (fun ha => ⟨ha.1, trivial⟩) fun hc => ⟨hc.1, hc.2.1, trivial⟩

theorem Calm.tail {inScope : Bool} {node : Node} {nodes : List Node}
    (h : Calm env inScope (node :: nodes)) : Calm env inScope nodes :=
  h.imp_right fun h => h.imp (fun ha => ha.2) fun hc => ⟨hc.1, hc.2.2⟩

/-- Where a body is staged in scope under a key in context, so is its section. -/
theorem Calm.inside {inScope b : Bool} {head : Section} {body : List Node}
    (h : Calm env inScope [.block head body])
    (hb : head.key.inContext = true → b = true → inScope = true) : Calm env b body := by
  rcases h with hoff | habs | ⟨hs, hin⟩
  · exact .inl hoff
  · exact .inr (.inl habs.1.2)
  · refine .inr (.inr ⟨?_, hin.1.2⟩)
    rw [hs] at hb
    simpa using hb hin.1.1

/-- In scope a key in context can be found missing in the first pass, so that must be no error. -/
theorem Calm.off {node : Node} (h : Calm env true [node]) (hnode : ¬ Node.AllAbsolute [node]) :
    env.settings.errorOnMissingTags = false := by
  rcases h with hoff | habs | ⟨hs, -⟩
  · exact hoff
  · exact absurd habs hnode
  · cases hs

theorem mustWait_plain {b : Binding} (hl : b.links = []) (inScope : Bool) (waiting : List String) :
    mustWait b inScope waiting = if b.key.inContext then !inScope
      else waiting.any fun path => pathCovers path b.key.text := by
  simp [mustWait, Binding.keys, hl]

theorem missing_off (h : env.settings.errorOnMissingTags = false) (raw : String) :
    missing env raw = .ok () := by
  simp [missing, h, pure, Except.pure]

private theorem stageTag_ok {tag : Tag} {place : Place φ} {inScope : Bool} (waiting : List String)
    (hc : place.Clean) (ht : tag.Plain) (hcalm : Calm env inScope [.tag tag]) :
    ∃ staged, stageNode env data inc place inScope waiting (.tag tag) = .ok staged := by
  rw [stageNode]
  cases hw : mustWait tag.binding inScope waiting with
  | true => exact ⟨[.tag tag], rfl⟩
  | false =>
    rcases resolve_bare env data (b := tag.binding) ht.links hc with ⟨-, hr⟩ | ⟨q, -, -, hr⟩
    · rw [hr]
      simp only [Bool.false_eq_true, if_false, bind, Except.bind]
      cases hin : tag.key.inContext && inScope with
      | false => exact ⟨[.tag tag], rfl⟩
      | true =>
        obtain ⟨hkey, rfl⟩ := Bool.and_eq_true_iff.1 hin
        have hoff := hcalm.off fun habs => by simpa [Node.Every, hkey] using habs.1
        exact ⟨[], by simp [missing_off hoff, pure, Except.pure]⟩
    · rw [hr]
      exact ⟨_, rfl⟩

/-- A section is staged without an error when its body is, wherever that is staged from. -/
private theorem stageBlock_ok {head : Section} {body : List Node} {place : Place φ} {inScope : Bool}
    (waiting : List String) (hc : place.Clean) (hhead : head.Plain)
    (hcalm : Calm env inScope [.block head body])
    (hbody : ∀ {p : Place φ} (b : Bool) (ws : List String), p.Clean → Calm env b body →
      ∃ staged, stageNodes env data inc p b ws body = .ok staged) :
    ∃ staged, stageNode env data inc place inScope waiting (.block head body) = .ok staged := by
  cases hw : mustWait head.binding inScope waiting with
  | true => exact ⟨_, stage_waits hw⟩
  | false =>
    rcases resolve_bare env data (b := head.binding) hhead.links hc with ⟨-, hr⟩ | ⟨q, -, hq, hr⟩
    · rw [stage_missing hw hr]
      cases hin : head.key.inContext && inScope with
      | false => exact ⟨_, rfl⟩
      | true =>
        obtain ⟨hkey, rfl⟩ := Bool.and_eq_true_iff.1 hin
        have hoff := hcalm.off fun habs => by simpa [hkey] using habs.1.1
        rw [missing_off hoff]
        cases hi : head.inclusive with
        | true => exact ⟨_, rfl⟩
        | false => exact hbody true waiting hc (.inl hoff)
    · rw [stage_found hhead.passes hw hq.bound hr]
      split
      · split
        · split
          · exact ⟨_, rfl⟩
          · obtain ⟨staged, hst⟩ := hbody false (q.path :: waiting) hc (hcalm.inside nofun)
            exact ⟨_, by rw [hst]; rfl⟩
        · split
          · exact hbody inScope waiting hc (hcalm.inside fun _ hb => hb)
          · exact ⟨_, rfl⟩
      · split
        · refine hbody true waiting hq (hcalm.inside fun hkey _ => ?_)
          rw [mustWait_plain hhead.links] at hw
          simpa [Section.binding, hkey] using hw
        · exact ⟨_, rfl⟩

mutual

private theorem stageNode_ok : (node : Node) → ∀ {place : Place φ} (inScope : Bool)
    (waiting : List String),
    place.Clean → Node.Plain node → Calm env inScope [node] →
    ∃ staged, stageNode env data inc place inScope waiting node = .ok staged
  | .text text, _, _, _, _, _, _ => ⟨[.text text], by rw [stageNode]; rfl⟩
  | .inclusion _, _, _, _, _, hn, _ => hn.elim
  | .tag _, _, _, waiting, hc, hn, hcalm => stageTag_ok waiting hc hn hcalm
  | .block _ body, _, _, waiting, hc, hn, hcalm =>
    stageBlock_ok waiting hc hn.1 hcalm fun b ws hp hb => stageNodes_ok body b ws hp hn.2 hb

theorem stageNodes_ok : (nodes : List Node) → ∀ {place : Place φ} (inScope : Bool)
    (waiting : List String), place.Clean → Node.AllPlain nodes → Calm env inScope nodes →
    ∃ staged, stageNodes env data inc place inScope waiting nodes = .ok staged
  | [], _, _, _, _, _, _ => ⟨[], by rw [stageNodes]; rfl⟩
  | node :: nodes, place, inScope, waiting, hc, hn, hcalm => by
    obtain ⟨a, ha⟩ := stageNode_ok node inScope waiting hc hn.1 hcalm.head
    obtain ⟨b, hb⟩ := stageNodes_ok nodes inScope waiting hc hn.2 hcalm.tail
    exact ⟨a ++ b, by rw [stageNodes, ha, hb]; rfl⟩

end

variable {p q place far : Place φ} {overlays : List (Place φ)}

/-- A place the passes look keys up from, over data without functions. -/
structure Stance (env : Env φ) (data : Value φ) (p : Place φ) (overlays : List (Place φ)) : Prop where
  clean : p.Clean
  overlaysClean : ∀ o ∈ overlays, o.Clean
  footing : Place.Footing env.host env.settings.errorOnFuncFailure data p overlays

theorem Stance.top (hd : data.isData = true) : Stance env data (.top data) [] :=
  ⟨.top hd, by simp, .top data⟩

theorem Stance.found (h : Stance env data p overlays) {key : Key} (hk : key.Formed) {raw : String}
    (hf : findPlace env.host (env.policy raw) p overlays key = .ok (some q)) :
    Stance env data q overlays := by
  refine ⟨?_, h.overlaysClean, h.footing.found hk hf⟩
  obtain ⟨r, hr, hclean⟩ := findPlace_clean env.host (env.policy raw) h.clean
    h.overlaysClean key
  rw [hr] at hf
  cases hf
  exact hclean q rfl

theorem Stance.item (h : Stance env data p overlays) (i : Nat) :
    Stance env data (p.item p.bound i) (p.item p.bound i :: overlays) := by
  refine ⟨h.clean.item i, fun o ho => ?_, h.footing.item _⟩
  rcases List.mem_cons.1 ho with rfl | ho
  · exact h.clean.item i
  · exact h.overlaysClean o ho

/-- Two places under the same overlays find absolute keys alike. -/
theorem resolve_moved {b : Binding} (hl : b.links = []) (hk : b.key.Formed)
    (hc : b.key.inContext = false) (hp : Stance env data p overlays)
    (hq : Stance env data q overlays) :
    resolve env data b p overlays = resolve env data b q overlays := by
  rw [resolve_plain hl, resolve_plain hl]
  exact congrArg (· >>= _) (hp.footing.findPlace_eq hq.footing.place hk hc)

theorem nodeText_tag {tag : Tag}
    (h : resolve env data tag.binding p overlays = resolve env data tag.binding q overlays) :
    nodeText env data inc p overlays (.tag tag) = nodeText env data inc q overlays (.tag tag) := by
  rw [nodeText, nodeText, settleNode, settleNode, h] <;> simp

theorem expandSection_moved {head : Section}
    {render : Place φ → List (Place φ) → Except TemplateError String} (hs : head.Plain)
    (hp : Stance env data p overlays)
    (hr : resolve env data head.binding p overlays = resolve env data head.binding q overlays)
    (hbody : head.inclusive = false →
      (render p overlays).toOption = (render q overlays).toOption) :
    (expandSection env data head render p overlays).toOption =
      (expandSection env data head render q overlays).toOption := by
  rcases resolve_clean env data (b := head.binding) hs.links hp.clean
    hp.overlaysClean with ⟨-, hfound⟩ | ⟨r, -, hclean, hfound⟩
  · rw [expand_missing hfound, expand_missing (hr ▸ hfound), toOption_bind, toOption_bind]
    refine congrArg _ (funext fun _ => ?_)
    split
    · rfl
    · exact hbody (Bool.eq_false_iff.2 ‹_›)
  · rw [expand_found hs.passes hclean.bound hfound, expand_found hs.passes hclean.bound (hr ▸ hfound)]
    split
    · split
      · rfl
      · split
        · exact hbody (Bool.eq_false_iff.2 ‹_›)
        · rfl
    · rfl

mutual

/-- A closed node reads the same from everywhere. -/
theorem nodeText_closed : (node : Node) → ∀ {p q : Place φ} {overlays : List (Place φ)},
    Node.Plain node → node.closed = true → Stance env data p overlays →
    Stance env data q overlays →
    nodeText env data inc p overlays node = nodeText env data inc q overlays node
  | .text text, _, _, _, _, _, _, _ => rfl
  | .inclusion _, _, _, _, hn, _, _, _ => hn.elim
  | .tag tag, _, _, _, hn, hc, hp, hq =>
    nodeText_tag (resolve_moved hn.links hn.key (by simpa [Node.closed, Tag.binding] using hc) hp hq)
  | .block head body, _, _, _, hn, hc, hp, hq => by
    simp only [Node.closed, Bool.and_eq_true, Bool.not_eq_true', Bool.or_eq_true] at hc
    refine expandSection_moved hn.1 hp (resolve_moved hn.1.links hn.1.key hc.1 hp hq) fun hi => ?_
    have hb : Node.allClosed body = true := by simpa [hi] using hc.2
    exact levelText_closed body hn.2 hb hp hq

theorem levelText_closed : (nodes : List Node) → ∀ {p q : Place φ} {overlays : List (Place φ)},
    Node.AllPlain nodes → Node.allClosed nodes = true → Stance env data p overlays →
    Stance env data q overlays →
    levelText env data inc p overlays nodes = levelText env data inc q overlays nodes
  | [], _, _, _, _, _, _, _ => by rw [levelText_nil, levelText_nil]
  | node :: nodes, _, _, _, hn, hc, hp, hq => by
    simp only [Node.allClosed, Bool.and_eq_true] at hc
    rw [levelText_cons, levelText_cons, nodeText_closed node hn.1 hc.1 hp hq,
      levelText_closed nodes hn.2 hc.2 hp hq]

end

end Treeless

end TextTemplate
