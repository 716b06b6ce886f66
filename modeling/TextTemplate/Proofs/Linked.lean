import TextTemplate.Proofs.Repeated

/-!
Sections over what a function returns. Such a section renders like one without the function over data
that holds the result, unless its body is flattened and looks into the field that the function was
given.
-/
namespace TextTemplate
variable {φ : Type}

/-- A key that has no empty segment, and names neither the field `f` of the whole data nor anything
below it. -/
def Key.Avoids (f : String) (key : Key) : Prop :=
  key.NoGaps ∧ (key.inContext = false → ¬ splitPath f <+: key.segments)

/-- Nodes without links and included templates, whose keys avoid the field `f`. -/
abbrev Node.AllAvoid (f : String) : List Node → Prop :=
  EveryOf (fun t => t.Plain ∧ t.key.Avoids f) (fun _ => False) fun s => s.Plain ∧ s.key.Avoids f

namespace Place

@[simp] theorem child_top_path (d : Value φ) (name : String) (w : Value φ) :
    ((top d).child name w).path = name := by
  simp [child, path, top, pathStem]

/-- A walk to a field that all the segments name. -/
theorem walk_firstField {d w : Value φ} (host : Host φ) (policy : FailurePolicy)
    (hd : d.isFunction = false) (ha : d.isArray = false) {joined name : String}
    {segments : List String} (h : d.firstField joined segments = some (name, w, [])) :
    (top d).walk host policy joined segments = .ok (some ((top d).child name w, [])) := by
  induction segments generalizing joined with
  | nil => cases h
  | cons segment segments ih =>
    have hread : (top d).read host policy = .ok d := read_of_not_function hd
    simp only [walk, hread, ha, bind, Except.bind, Bool.false_eq_true, if_false]
    rw [Value.firstField] at h
    split at h
    · cases h
    · rename_i hs
      simp only [hs]
      cases hw : d.get? (joined ++ segment) with
      | some u =>
        rw [hw] at h
        cases h
        rfl
      | none =>
        rw [hw] at h
        exact ih h

theorem findPlace_firstField {d w : Value φ} (host : Host φ) (policy : FailurePolicy)
    (hd : d.isFunction = false) (ha : d.isArray = false) {key : Key} {name : String}
    (hc : key.inContext = false) (h : d.firstField "" key.segments = some (name, w, [])) :
    Treeless.findPlace host policy (top d) [] key = .ok (some ((top d).child name w)) := by
  have hstart : start (top d) [] key = top d := by simp only [start, hc]; rfl
  have hdepth : pathDepth (top d).path = 0 := rfl
  rw [Treeless.findPlace_start]
  simp only [hstart, hdepth, ite_self, List.drop_zero, walk_firstField host policy hd ha h]
  rfl

end Place

namespace Treeless

open Place

theorem firstField_ofPath {d w : Value φ} {k : String} (hk : k ≠ "" ∧ '.' ∉ k.toList)
    (hw : d.get? k = some w) :
    d.firstField "" (Key.ofPath k false).segments = some (k, w, []) := by
  have hself : ScopeTree.isSelfKey k = false := by
    simpa using isSelfKey_append "" hk.1 hk.2
  rw [Key.ofPath, splitPath_of_dotless hk.1 hk.2, Value.firstField]
  simp [hself, hw]

/-- A key fits if what it finds elsewhere than in the field `k` holds no function. -/
theorem fits_of_data {d : Value φ} {k : String} {key : Key} (hk : key.Formed) (hgaps : key.NoGaps)
    (hdata : key.inContext = false → ∀ name w, d.get? name = some w → name ≠ k →
      splitPath name <+: key.segments → w.isData = true) : Fits d k key := by
  refine ⟨hk, hgaps, ?_⟩
  cases hc : key.inContext with
  | true => exact .inl rfl
  | false =>
    by_cases hcov : pathCovers k key.text = true
    · exact .inr (.inl hcov)
    · refine .inr (.inr fun name w more hfirst => ?_)
      have hdot : Dotless key.segments := hk.segments ▸ dotless_splitPath key.text
      obtain ⟨hget, hsplit⟩ := Value.firstField_split .none hdot hfirst
      rw [List.nil_append] at hsplit
      have hne : name ≠ k := by
        rintro rfl
        exact hcov (pathCovers_iff.2 ⟨more, by rw [← hk.segments, hsplit]⟩)
      exact ⟨hne, hdata hc name w hget hne ⟨more, hsplit.symm⟩⟩

/-- A section without links over the field `k` of the whole data. -/
structure OverField (k : String) (head : Section) : Prop where
  undotted : k ≠ "" ∧ '.' ∉ k.toList
  key : head.key = .ofPath k false
  links : head.links = []
  inclusive : head.inclusive = true
  passes : head.passesText = false

namespace OverField

variable {k : String} {head : Section} (h : OverField k head)
include h

theorem plain : head.Plain where
  key := by
    rw [h.key]
    exact ⟨rfl, fun _ => h.undotted.1⟩
  links := h.links
  passes := h.passes

/-- The key is absolute, so the section does not move. -/
theorem anchored (path : String) : head.anchored path = head := by
  have hkey : head.key.anchored path = head.key := by simp [h.key, Key.anchored, Key.ofPath]
  rw [Section.anchored, hkey, h.links, List.map_nil, ← h.links]

theorem resolve (env : Env φ) {d w : Value φ} (hd : d.isFunction = false) (ha : d.isArray = false)
    (hw : d.get? k = some w) (hdata : w.isData = true) :
    Treeless.resolve env d head.binding (top d) [] =
      .ok (some (.plain ((top d).child k w) w)) := by
  have hfield : findPlace env.host (env.policy head.raw) (top d) [] head.key =
      .ok (some ((top d).child k w)) := by
    rw [h.key]
    exact findPlace_firstField _ _ hd ha rfl (firstField_ofPath h.undotted hw)
  have hread : ((top d).child k w).read env.host (env.policy head.raw) = .ok w :=
    read_of_not_function (Value.isFunction_of_isData hdata)
  rw [Treeless.resolve_plain (b := head.binding) h.links]
  change findPlace env.host (env.policy head.raw) _ [] head.key >>= _ = _
  rw [hfield]
  simp only [bind, Except.bind]
  rw [show Place.read env.host (env.policy head.binding.raw) _ = .ok w from hread]

end OverField

/-- A section over the field `k` of a record, with a link to a function that the field `f` holds, and
the same section without the link. The function returns `w`. -/
structure Linked (env : Env φ) (d : Value φ) (k f : String) (v w : Value φ) (link : Link)
    (linked plain : Section) : Prop where
  record : ∃ fields, d = .record fields
  undotted : k ≠ "" ∧ '.' ∉ k.toList
  field : d.get? k = some v
  other : k ≠ f
  data : ∀ name u, d.get? name = some u → name ≠ f → u.isData = true
  function : ∃ g, d.firstField "" link.key.segments = some (f, .function g, []) ∧
    env.host.outcome (env.policy linked.raw) g v d = .ok w
  result : w.isData = true
  linkKey : link.key.Formed ∧ link.key.inContext = false
  linkPlain : link.format = none ∧ link.escape = false
  linkedHead : linked.key = .ofPath k false ∧ linked.links = [link]
  plainHead : plain.key = .ofPath k false ∧ plain.links = []
  directive : linked.opener.directive = plain.opener.directive
  inclusive : plain.inclusive = true
  passes : plain.passesText = false

/-- What a binding with links comes to at the place of its key. -/
def Resolution.passed (q : Place φ) (f : φ) (fs : List φ) (v : Value φ) : Resolution φ where
  place := q
  functions := f :: fs
  value := v
  isRepeating := v.isArray
  isDynamic := true
  size := v.size

@[simp] theorem Resolution.passed_inner (q : Place φ) (f : φ) (fs : List φ) (v : Value φ) :
    (passed q f fs v).inner = q.overlay v := by
  simp [passed, inner]

/-- The body is rendered over what the function returned without a look into the field. -/
structure Sparing (env : Env φ) (d : Value φ) (k : String) (w : Value φ)
    (body : List Node) : Prop where
  stage : ∀ p key, StageLooks env d ((top d).child k w) true [] body p key →
    Spares d k p [] key
  level : ∀ staged, stageNodes env d (includeText env d maxPartialDepth)
      ((top d).child k w) true [] body = .ok staged →
    ∀ p os key, LevelLooks env d (.top d) [] staged p os key → Spares d k p os key

namespace Linked

variable {env : Env φ} {d v w : Value φ} {k f : String} {link : Link} {linked plain : Section}
  (h : Linked env d k f v w link linked plain)
include h

theorem flags : linked.inclusive = true ∧ linked.passesText = false ∧ linked.list = plain.list := by
  have hi := h.inclusive
  have hp := h.passes
  simp only [Section.inclusive, Section.passesText, Section.list, h.directive] at *
  exact ⟨hi, hp, trivial⟩

theorem roots : Roots k d (d.set k w) := by
  obtain ⟨fields, rfl⟩ := h.record
  exact ⟨⟨fields, rfl⟩, ⟨_, rfl⟩, by rw [h.field]; rfl,
    fun name hne => Value.lookup_setField_of_ne hne w fields⟩

theorem replaced : (d.set k w).get? k = some w := by
  obtain ⟨fields, rfl⟩ := h.record
  exact Value.lookup_setField_self k w fields

theorem overField : OverField k plain :=
  ⟨h.undotted, h.plainHead.1, h.plainHead.2, h.inclusive, h.passes⟩

/-- The keys are absolute, so neither section moves. -/
theorem anchored (path : String) : linked.anchored path = linked ∧ plain.anchored path = plain := by
  have hkey : ∀ key : Key, key.inContext = false → key.anchored path = key := fun key hc => by
    simp [Key.anchored, hc]
  have hlink : link.anchored path = link := by
    rw [Link.anchored, hkey link.key h.linkKey.2]
  refine ⟨?_, h.overField.anchored path⟩
  simp only [Section.anchored, h.linkedHead.1, h.linkedHead.2, List.map_singleton, hlink]
  rw [hkey _ rfl, ← h.linkedHead.1, ← h.linkedHead.2]

theorem resolve_linked : ∃ g, resolve env d linked.binding (top d) [] =
    .ok (some (.passed ((top d).child k v) g [] w)) := by
  obtain ⟨g, hfun, hcall⟩ := h.function
  refine ⟨g, ?_⟩
  have hroot := h.roots.isFunction.1
  have harray := h.roots.isArray.1
  have hfield : findPlace env.host (env.policy linked.raw) (top d) [] linked.key =
      .ok (some ((top d).child k v)) := by
    rw [h.linkedHead.1]
    exact findPlace_firstField _ _ hroot harray rfl (firstField_ofPath h.undotted h.field)
  have hlink : findPlace env.host (env.policy linked.raw) (top d) [] link.key =
      .ok (some ((top d).child f (.function g))) :=
    findPlace_firstField _ _ hroot harray h.linkKey.2 hfun
  have hread : ((top d).child k v).read env.host (env.policy linked.raw) = .ok v :=
    read_of_not_function (Value.isFunction_of_isData (h.data k v h.field h.other))
  have hchain : findChain env.host (env.policy linked.raw) (top d) [] linked.links = .ok [g] := by
    rw [h.linkedHead.2, findChain, hlink]
    rfl
  have hpass : passThrough env d (env.policy linked.raw) [(g, link)] v = .ok w := by
    simp only [passThrough, hcall, h.linkPlain.1, h.linkPlain.2]
    rfl
  rw [resolve]
  change findPlace env.host (env.policy linked.raw) (top d) [] linked.key >>= _ = _
  rw [hfield]
  simp only [bind, Except.bind, Section.binding, h.flags.2.1]
  rw [h.linkedHead.2] at hchain ⊢
  simp only [hchain, hread, List.isEmpty_cons, Bool.false_eq_true, if_false]
  simp only [List.zip_cons_cons, List.zip_nil_left, Option.isSome_none, Bool.or_self,
    Bool.false_eq_true, if_false, hpass]
  rfl

theorem resolve_plain : resolve env (d.set k w) plain.binding (top (d.set k w)) [] =
    .ok (some (.plain ((top (d.set k w)).child k w) w)) :=
  h.overField.resolve env h.roots.isFunction.2 h.roots.isArray.2 h.replaced h.result

theorem plain_sound (data : Value φ) : plain.Sound data :=
  ⟨h.overField.plain.formed, .inr ⟨rfl, rfl, by simp [Section.binding, h.plainHead.2]⟩⟩

theorem linked_sound (data : Value φ) : linked.Sound data := by
  refine ⟨fun key hk => ?_, .inr ⟨rfl, rfl, ?_⟩⟩
  · have hkey : key = .ofPath k false ∨ key = link.key := by
      simpa [Binding.keys, Section.binding, h.linkedHead.1, h.linkedHead.2] using hk
    rcases hkey with rfl | rfl
    · exact ⟨rfl, fun _ => h.undotted.1⟩
    · exact h.linkKey.1
  · simpa [Section.binding, h.linkedHead.2] using h.linkPlain

/-- The section is treated alike with and without the link. -/
theorem fate_eq : ∃ a a', fate env d (top d) true [] linked = .ok a ∧
    fate env (d.set k w) (top (d.set k w)) true [] plain = .ok a' ∧
      (a = .hidden ∧ a' = .hidden ∨
        w.isArray = true ∧ a = .copied false k ∧ a' = .copied false k ∨
        w.isArray = false ∧ shows env true w = true ∧ a = .flat ((top d).child k w) true ∧
          a' = .flat ((top (d.set k w)).child k w) true) := by
  obtain ⟨g, hr⟩ := h.resolve_linked
  obtain ⟨hi, hp, -⟩ := h.flags
  have hwait : ∀ b : Binding, Treeless.mustWait b true [] = false := fun b => by
    simp [Treeless.mustWait]
  have hshown : display env d true w linked.raw = .ok (shows env true w) :=
    display_clean h.result true linked.raw
  have hplain := fate_plain h.passes (hwait _) h.resolve_plain
    (display_clean h.result plain.inclusive plain.raw)
  rw [h.inclusive] at hplain
  have hinner : (((top d).child k v).overlay w) = (top d).child k w := rfl
  rw [hplain, fate, hwait, hr]
  simp only [bind, Except.bind, hp, hi, Resolution.passed_inner, hinner, child_top_path,
    Bool.false_eq_true, if_false]
  simp only [Resolution.passed, Option.getD_some, hshown]
  cases ha : w.isArray with
  | true =>
    by_cases hn : w.size = 0
    · exact ⟨.hidden, .hidden, by simp [hn, pure, Except.pure], by simp [hn], .inl ⟨rfl, rfl⟩⟩
    · exact ⟨.copied false k, .copied false k, by simp [hn, pure, Except.pure], by simp [hn],
        .inr (.inl ⟨rfl, rfl, rfl⟩)⟩
  | false =>
    cases hs : shows env true w with
    | true => exact ⟨_, _, rfl, rfl, .inr (.inr ⟨rfl, rfl, rfl, rfl⟩)⟩
    | false => exact ⟨.hidden, .hidden, rfl, rfl, .inl ⟨rfl, rfl⟩⟩

/-- Keys that avoid the function fit. -/
theorem fits {body : List Node} (hn : Node.AllAvoid f body) : AllFit d k body := by
  have hkey : ∀ key : Key, key.Formed → key.Avoids f → Fits d k key := fun key hk ha =>
    fits_of_data hk ha.1 fun hc name u hget _ hpath => h.data name u hget (by
      rintro rfl
      exact ha.2 hc hpath)
  exact hn.imp (fun t ht => ⟨ht.1, hkey t.key ht.1.key ht.2⟩) (fun _ hi => hi)
    (fun s hs => ⟨hs.1, hkey s.key hs.1.key hs.2⟩) body

theorem expand_linked (ha : w.isArray = true)
    (render : Place φ → List (Place φ) → Except TemplateError String) :
    expandSection env d linked render (top d) [] =
      expandItems env d linked.raw render ((top d).child k w) [] (List.range w.size) >>= fun texts =>
        .ok (if plain.list then Text.joinList texts else String.join texts) := by
  obtain ⟨g, hr⟩ := h.resolve_linked
  obtain ⟨hi, hp, hl⟩ := h.flags
  have hinner : (((top d).child k v).overlay w) = (top d).child k w := rfl
  rw [expandSection, hr]
  simp only [bind, Except.bind, hp, hi, hl, Resolution.passed_inner, hinner]
  simp [Resolution.passed, ha, pure, Except.pure]

theorem stagedNodeText_eq (inc' : Inclusion → Place φ → Except TemplateError String)
    (hoff : env.settings.errorOnMissingTags = false) {body : List Node} (hn : Node.AllAvoid f body)
    (hs : w.isArray = false → shows env true w = true → Sparing env d k w body) :
    ∃ text, stagedNodeText env d (includeText env d maxPartialDepth) (top d) true [] (top d) []
        (.block linked body) = some text ∧
      stagedNodeText env (d.set k w) inc' (top (d.set k w)) true [] (top (d.set k w)) []
        (.block plain body) = some text := by
  have hR := h.roots
  have hplain : Node.AllPlain body := hn.imp (fun _ ht => ht.1) (fun _ hi => hi) (fun _ hs => hs.1) body
  have hresult : Twin d (d.set k w) ((top d).child k w) ((top (d.set k w)).child k w) :=
    Twin.top.child k h.result
  obtain ⟨a, a', ha, ha', hcases⟩ := h.fate_eq
  rw [stagedNodeText, stagedNodeText, stageNode_block, stageNode_block, ha, ha']
  rcases hcases with ⟨rfl, rfl⟩ | ⟨harray, rfl, rfl⟩ | ⟨harray, hshown, rfl, rfl⟩
  · exact ⟨"", rfl, rfl⟩
  · have hfit := h.fits hn
    have hout : Outside env d (d.set k w) k (top d) false [k] :=
      ⟨⟨_, .top⟩, .top d, List.mem_singleton.2 rfl, .inl ⟨rfl, rfl⟩⟩
    obtain ⟨staged, hst, hst'⟩ := stageNodes_twin (includeText env d maxPartialDepth) inc' hoff hR
      body false [k] hplain .top fun _ _ hl => hout.looks hR hl hfit
    have hleft := hout.left hR hfit hst
    obtain ⟨texts, ht, ht'⟩ := expandItems_twin
      (fun p os => expandLevel env d (includeText env d maxPartialDepth) p os staged)
      (fun p os => expandLevel env (d.set k w) inc' p os staged) hR linked.raw plain.raw
      hresult harray (List.range w.size) fun i _ _ => by
        obtain ⟨hbelow, hitem⟩ := hresult.item hR harray i
        have hrep : Repeating d (d.set k w) k (((top d).child k w).item w i)
            [((top d).child k w).item w i] :=
          ⟨⟨_, hitem⟩, ⟨_, .cons hitem .nil⟩, hbelow,
            fun o ho => List.mem_singleton.1 ho ▸ hbelow, ⟨_, List.mem_singleton.2 rfl, child_top_path d k w⟩⟩
        obtain ⟨text, ht, ht'⟩ := levelText_twin (includeText env d maxPartialDepth) inc' hoff hR
          staged (stageNodes_plain hplain hst) hitem (.cons hitem .nil)
          fun _ _ _ hl => hrep.looks hR hl hleft
        exact ⟨text, toOption_eq_some.1 ht, toOption_eq_some.1 ht'⟩
    refine ⟨if plain.list then Text.joinList texts else String.join texts, ?_, ?_⟩
    · simp only [bind, Except.bind, hst, (h.anchored _).1]
      change levelText env d _ (top d) [] [.block linked staged] = _
      rw [levelText_singleton, nodeText, h.expand_linked harray, ht]
      rfl
    · simp only [bind, Except.bind, hst', (h.anchored _).2]
      change levelText env (d.set k w) inc' (top (d.set k w)) [] [.block plain staged] = _
      rw [levelText_singleton, nodeText, expand_plain h.passes h.resolve_plain
        (display_clean h.result plain.inclusive plain.raw), if_pos harray, if_pos h.inclusive, ht']
      rfl
  · have hsparing := hs harray hshown
    obtain ⟨staged, hst, hst'⟩ := stageNodes_twin (includeText env d maxPartialDepth) inc' hoff hR
      body true [] hplain hresult hsparing.stage
    simp only [bind, Except.bind, hst, hst']
    exact levelText_twin _ inc' hoff hR staged (stageNodes_plain hplain hst) .top .nil
      (hsparing.level staged hst)

end Linked

end Treeless

/-- A render of one section, with nothing remembered. -/
theorem Run.outcome_block {env : Env φ} (hpure : env.host.IsPure) {d : Value φ}
    (hd : d.isFunction = false) {head : Section} (hs : head.Sound d) {body : List Node}
    (hn : Node.AllPlain body) (delimiters : Delimiters) :
    (outcome env ⟨[.block head body], delimiters⟩ d).toOption =
      Treeless.stagedNodeText env d (Treeless.includeText env d maxPartialDepth) (.top d) true []
        (.top d) [] (.block head body) := by
  have hsound : Node.AllSound (fun _ => False) d [.block head body] := ⟨⟨hs, hn.sound d⟩, trivial⟩
  rw [outcome_eq_treeless (.inl hpure) hd (fun _ _ _ _ hi => hi.elim) hsound,
    ← Treeless.stagedText_singleton]
  rfl

open Treeless in
/-- **A section over a function result** is a plain section over the data with the result in it, if the
result is repeated or hidden, or the body does not look into the field. -/
theorem Run.outcome_linked {env : Env φ} (hpure : env.host.IsPure)
    (hoff : env.settings.errorOnMissingTags = false) {d v w : Value φ} {k f : String} {link : Link}
    {linked plain : Section} (h : Linked env d k f v w link linked plain) {body : List Node}
    (hn : Node.AllAvoid f body)
    (hs : w.isArray = false → shows env true w = true → Sparing env d k w body)
    (delimiters : Delimiters) :
    ∃ text, outcome env ⟨[.block linked body], delimiters⟩ d = .ok text ∧
      outcome env ⟨[.block plain body], delimiters⟩ (d.set k w) = .ok text := by
  have hR := h.roots
  have hplain : Node.AllPlain body := hn.imp (fun _ ht => ht.1) (fun _ hi => hi) (fun _ hs => hs.1) body
  obtain ⟨text, hl, hr⟩ := h.stagedNodeText_eq
    (Treeless.includeText env (d.set k w) maxPartialDepth) hoff hn hs
  refine ⟨text, ?_, ?_⟩
  · rw [← toOption_eq_some, outcome_block hpure hR.isFunction.1 (h.linked_sound d) hplain, hl]
  · rw [← toOption_eq_some, outcome_block hpure hR.isFunction.2 (h.plain_sound _) hplain, hr]

namespace NewItems

def old : Value Unit := .record [("xs", .array [.string "old"])]

def new : Value Unit := .record [("xs", .array [.string "new"])]

def data : Value Unit := .record [("k", old), ("f", .function ())]

def env : Env Unit := ⟨⟨fun _ _ _ _ => .ok new⟩, .default, Number.specFormatter, []⟩

def link : Link := .ofKey (.ofPath "f" false)

def head (path : String) (inContext : Bool) (links : List Link) : Section :=
  ⟨⟨"", some .sectionInclude, .ofPath path inContext, links, none, false⟩, .ofPath path inContext,
    links⟩

def tag (path : String) : Node := .tag ⟨"", none, .ofPath path true, [], none, false⟩

/-- Each of the items, with a mark after it. -/
def items : List Node := [.block (head "xs" true []) [tag "", .text ";"]]

theorem linked : Treeless.Linked env data "k" "f" old new link (head "k" false [link])
    (head "k" false []) where
  record := ⟨_, rfl⟩
  undotted := by decide
  field := rfl
  other := by decide
  data name u hu hne := by
    have hlookup : ([("k", old), ("f", .function ())] : List (String × Value Unit)).lookup name =
      some u := hu
    rw [List.lookup_cons] at hlookup
    split at hlookup
    · cases hlookup
      rfl
    · rw [List.lookup_cons, beq_eq_false_iff_ne.2 hne] at hlookup
      cases hlookup
  function := ⟨(), rfl, rfl⟩
  result := rfl
  linkKey := ⟨⟨rfl, fun _ => by decide⟩, rfl⟩
  linkPlain := ⟨rfl, rfl⟩
  linkedHead := ⟨rfl, rfl⟩
  plainHead := ⟨rfl, rfl⟩
  directive := rfl
  inclusive := rfl
  passes := rfl

theorem pure : env.host.IsPure := fun _ _ _ _ _ => rfl

end NewItems

open NewItems in
/-- The items as a whole are those of the result. -/
theorem Run.outcome_linked_value :
    ∃ text, outcome env ⟨[.block (head "k" false [link]) [tag "xs"]], .default⟩ data = .ok text ∧
      outcome env ⟨[.block (head "k" false []) [tag "xs"]], .default⟩ (data.set "k" new) =
        .ok text := by
  have hn : Node.AllAvoid "f" [tag "xs"] :=
    ⟨⟨⟨⟨rfl, by decide⟩, rfl⟩, by decide, by decide⟩, trivial⟩
  refine Run.outcome_linked pure rfl linked hn (fun _ _ => ⟨fun p key hl => ?_, ?_⟩) .default
  · cases hl with
    | tag mem =>
      cases List.mem_singleton.1 mem
      exact fun htop => by cases htop
    | _ mem => cases List.mem_singleton.1 mem
  · intro staged hst p os key hl
    have htext : staged = [.text "[new]"] := by
      have : Treeless.stageNodes env data (Treeless.includeText env data maxPartialDepth)
        ((Place.top data).child "k" new) true [] [tag "xs"] = .ok [.text "[new]"] := rfl
      cases hst.symm.trans this
      rfl
    subst htext
    cases hl with
    | tag mem => cases List.mem_singleton.1 mem
    | head mem => cases List.mem_singleton.1 mem
    | flag mem => cases List.mem_singleton.1 mem
    | inside mem => cases List.mem_singleton.1 mem

open NewItems in
/-- One by one they are those of the field that the function was given. -/
theorem Run.outcome_linked_items :
    Node.AllAvoid "f" items ∧
      outcome env ⟨[.block (head "k" false [link]) items], .default⟩ data = .ok "old;" ∧
      outcome env ⟨[.block (head "k" false []) items], .default⟩ (data.set "k" new) =
        .ok "new;" := by
  have hn : Node.AllAvoid "f" items :=
    ⟨⟨⟨⟨⟨rfl, by decide⟩, rfl, rfl⟩, by decide, by decide⟩,
      ⟨⟨⟨rfl, by decide⟩, rfl⟩, by decide, by decide⟩, trivial, trivial⟩, trivial⟩
  have hplain : Node.AllPlain items := hn.imp (fun _ ht => ht.1) (fun _ hi => hi) (fun _ hs => hs.1) _
  refine ⟨hn, ?_, ?_⟩
  · rw [← Treeless.toOption_eq_some, outcome_block pure rfl (linked.linked_sound _) hplain]
    decide +kernel
  · rw [← Treeless.toOption_eq_some, outcome_block pure rfl (linked.plain_sound _) hplain]
    decide +kernel

end TextTemplate
