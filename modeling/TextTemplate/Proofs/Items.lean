import TextTemplate.Proofs.Linked
import TextTemplate.Proofs.OnePass

/-!
Items of a repeated section are independent. Over a record without functions a section writes for each
item it shows a text that the other items have no part in, and only joins these texts.
-/
namespace TextTemplate
variable {φ : Type}

theorem Value.isData_setField {name : String} {v : Value φ} (hv : v.isData = true)
    {fields : List (String × Value φ)} (h : fieldsAreData fields = true) :
    fieldsAreData (setField name v fields) = true := by
  induction fields with
  | nil => simp [setField, fieldsAreData, hv]
  | cons field fields ih =>
    obtain ⟨other, w⟩ := field
    simp only [fieldsAreData, Bool.and_eq_true] at h
    rw [setField]
    split
    · simp [fieldsAreData, hv, h.2]
    · simp [fieldsAreData, h.1, ih h.2]

theorem Value.itemsAreData_iff {items : List (Value φ)} :
    itemsAreData items = true ↔ ∀ v ∈ items, v.isData = true := by
  induction items with
  | nil => simp [itemsAreData]
  | cons v items ih => simp [itemsAreData, ih]

/-- Nodes without links and included templates, whose keys have no empty segment. -/
abbrev Node.AllGapless : List Node → Prop :=
  EveryOf (fun t => t.Plain ∧ t.key.NoGaps) (fun _ => False) fun s => s.Plain ∧ s.key.NoGaps

theorem Node.AllGapless.plain {nodes : List Node} (h : AllGapless nodes) : AllPlain nodes :=
  h.imp (fun _ ht => ht.1) (fun _ hi => hi) (fun _ hs => hs.1) nodes

/-- How a repeated section puts the texts of its items together. -/
def Section.assemble (head : Section) (texts : List String) : String :=
  if head.list then Text.joinList texts else String.join texts

namespace Treeless

open Place

/-- What a data value shows is what it decides in a render. -/
theorem display_eq_shows {env : Env φ} {v : Value φ} (hv : v.isData = true) (inclusive : Bool)
    (raw : String) (s : Session φ) :
    Run.display env inclusive v raw s = .ok (shows env inclusive v) s := by
  rw [Run.display, shows]
  cases hflag : v.get? displayKey with
  | none => rfl
  | some flag =>
    have hdata := Value.isData_get? hv hflag
    cases flag with
    | function f => cases hdata
    | _ => rfl

/-- A section over the field `k` of a record without functions. -/
structure Loop (d : Value φ) (k : String) (head : Section) (body : List Node) : Prop
    extends OverField k head where
  record : ∃ fields, d = .record fields
  data : d.isData = true
  gapless : Node.AllGapless body

namespace Loop

variable {env : Env φ} {d : Value φ} {k : String} {head : Section} {body : List Node}
  (h : Loop d k head body)
include h

theorem data_set {v : Value φ} (hv : v.isData = true) : (d.set k v).isData = true := by
  obtain ⟨fields, rfl⟩ := h.record
  exact Value.isData_setField hv h.data

theorem get_set (v : Value φ) : (d.set k v).get? k = some v := by
  obtain ⟨fields, rfl⟩ := h.record
  exact Value.lookup_setField_self k v fields

theorem roots (v w : Value φ) : Roots k (d.set k v) (d.set k w) := by
  have hfield := h.get_set v
  obtain ⟨fields, rfl⟩ := h.record
  refine ⟨⟨_, rfl⟩, ⟨_, rfl⟩, by rw [hfield]; rfl, fun name hne => ?_⟩
  exact (Value.lookup_setField_of_ne hne w fields).trans
    (Value.lookup_setField_of_ne hne v fields).symm

theorem resolve {v : Value φ} (hv : v.isData = true) :
    Treeless.resolve env (d.set k v) head.binding (top (d.set k v)) [] =
      .ok (some (.plain ((top (d.set k v)).child k v) v)) :=
  h.toOverField.resolve env (h.roots v v).isFunction.1 (h.roots v v).isArray.1 (h.get_set v) hv

/-- The body's keys fit whatever the field holds. -/
theorem fits {v : Value φ} (hv : v.isData = true) : AllFit (d.set k v) k body := by
  have hkey : ∀ key : Key, key.Formed → key.NoGaps → Fits (d.set k v) k key := fun key hk hgaps =>
    fits_of_data hk hgaps fun _ _ _ hget _ _ => Value.isData_get? (h.data_set hv) hget
  exact h.gapless.imp (fun t ht => ⟨ht.1, hkey t.key ht.1.key ht.2⟩) (fun _ hi => hi)
    (fun s hs => ⟨hs.1, hkey s.key hs.1.key hs.2⟩) body

/-- The body is staged alike whatever the field holds, and its keys still fit. -/
theorem staged (hoff : env.settings.errorOnMissingTags = false) :
    ∃ staged, AllFit (d.set k .null) k staged ∧ Node.AllPlain staged ∧
      ∀ (inc : Inclusion → Place φ → Except TemplateError String) (w : Value φ),
        stageNodes env (d.set k w) inc (top (d.set k w)) false [k] body = .ok staged := by
  let inc₀ : Inclusion → Place φ → Except TemplateError String := fun _ _ => .ok ""
  have hfits : AllFit (d.set k .null) k body := h.fits rfl
  have houtside : ∀ w, Outside env (d.set k .null) (d.set k w) k (top (d.set k .null)) false [k] :=
    fun w => ⟨⟨_, .top⟩, .top _, List.mem_singleton.2 rfl, .inl ⟨rfl, rfl⟩⟩
  have hsame : ∀ (inc : Inclusion → Place φ → Except TemplateError String) (w : Value φ),
      ∃ staged, stageNodes env (d.set k .null) inc₀ (top (d.set k .null)) false [k] body =
          .ok staged ∧
        stageNodes env (d.set k w) inc (top (d.set k w)) false [k] body = .ok staged :=
    fun inc w => stageNodes_twin inc₀ inc hoff (h.roots .null w) body false [k] h.gapless.plain
      .top fun _ _ hl => (houtside w).looks (h.roots .null w) hl hfits
  obtain ⟨staged, hst, -⟩ := hsame inc₀ .null
  refine ⟨staged, (houtside .null).left (h.roots .null .null) hfits hst,
    stageNodes_plain h.gapless.plain hst, fun inc w => ?_⟩
  obtain ⟨staged', hst', hw⟩ := hsame inc w
  cases hst.symm.trans hst'
  exact hw

/-- The second pass makes the same text of an item whatever else the field holds. -/
theorem item (hoff : env.settings.errorOnMissingTags = false) {staged : List Node}
    (hfits : AllFit (d.set k .null) k staged) (hplain : Node.AllPlain staged) {v : Value φ}
    (hv : v.isData = true) :
    ∃ text, ∀ (inc : Inclusion → Place φ → Except TemplateError String) (w : Value φ),
      expandLevel env (d.set k w) inc ((top (d.set k w)).child k v)
        [(top (d.set k w)).child k v] staged = .ok text := by
  let inc₀ : Inclusion → Place φ → Except TemplateError String := fun _ _ => .ok ""
  have hsame : ∀ (inc : Inclusion → Place φ → Except TemplateError String) (w : Value φ),
      ∃ text, levelText env (d.set k .null) inc₀ ((top (d.set k .null)).child k v)
          [(top (d.set k .null)).child k v] staged = some text ∧
        levelText env (d.set k w) inc ((top (d.set k w)).child k v)
          [(top (d.set k w)).child k v] staged = some text := by
    intro inc w
    have hitem : Twin (d.set k .null) (d.set k w) ((top (d.set k .null)).child k v)
        ((top (d.set k w)).child k v) := Twin.top.child k hv
    have hbelow : ((top (d.set k .null)).child k v).above ≠ [] := List.cons_ne_nil _ _
    have hrepeating : Repeating (d.set k .null) (d.set k w) k ((top (d.set k .null)).child k v)
        [(top (d.set k .null)).child k v] :=
      ⟨⟨_, hitem⟩, ⟨_, .cons hitem .nil⟩, hbelow, fun o ho => List.mem_singleton.1 ho ▸ hbelow,
        ⟨_, List.mem_singleton.2 rfl, child_top_path _ k v⟩⟩
    exact levelText_twin inc₀ inc hoff (h.roots .null w) staged hplain hitem (.cons hitem .nil)
      fun _ _ _ hl => hrepeating.looks (h.roots .null w) hl hfits
  obtain ⟨text, htext, -⟩ := hsame inc₀ .null
  refine ⟨text, fun inc w => ?_⟩
  obtain ⟨text', htext', hw⟩ := hsame inc w
  cases htext.symm.trans htext'
  exact toOption_eq_some.1 hw

/-- The section as a whole, from the texts of single items. -/
theorem expand {staged : List Node} {itemText : Value φ → String}
    {inc : Inclusion → Place φ → Except TemplateError String} {items : List (Value φ)}
    (hdata : ∀ v ∈ items, v.isData = true)
    (hitem : ∀ v ∈ items, ∀ w, expandLevel env (d.set k w) inc ((top (d.set k w)).child k v)
      [(top (d.set k w)).child k v] staged = .ok (itemText v)) :
    nodeText env (d.set k (.array items)) inc (top (d.set k (.array items))) []
        (.block head staged) =
      some (head.assemble ((items.filter (shows env true)).map itemText)) := by
  have harray : (Value.array items).isData = true := Value.itemsAreData_iff.2 hdata
  have hclean : ((top (d.set k (.array items))).child k (.array items)).Clean :=
    (Clean.top (h.data_set harray)).child (h.get_set _)
  have hitems : (expandItems env (d.set k (.array items)) head.raw
      (fun p os => expandLevel env (d.set k (.array items)) inc p os staged)
      ((top (d.set k (.array items))).child k (.array items)) []
      (List.range items.length)).toOption =
        some ((items.filter (shows env true)).map itemText) := by
    rw [OnePass.expandItems_eval hclean rfl head.raw (fun v => .ok (itemText v)), OnePass.range_items]
    · have hmap : ((items.filter (shows env true)).mapM fun v => Except.ok (itemText v)) =
          (.ok ((items.filter (shows env true)).map itemText) : Except TemplateError _) :=
        List.mapM_pure
      exact congrArg Except.toOption hmap
    · intro i hi
      have hlt : i < items.length := List.mem_range.1 hi
      have hmem : items.getD i .null ∈ items := by
        rw [List.getD_eq_getElem?_getD, List.getElem?_eq_getElem hlt]
        exact List.getElem_mem hlt
      exact congrArg Except.toOption (hitem _ hmem _)
  rw [nodeText, expand_found h.passes harray (h.resolve harray),
    if_pos (show (Value.array items).isArray = true from rfl), if_pos h.inclusive, toOption_bind]
  change (expandItems _ _ _ _ _ _ (List.range items.length)).toOption.bind _ = _
  rw [hitems]
  rfl

/-- The section over items, in both passes. -/
theorem stagedNodeText_eq (hoff : env.settings.errorOnMissingTags = false) :
    ∃ itemText : Value φ → String,
      ∀ (inc : Inclusion → Place φ → Except TemplateError String) (items : List (Value φ)),
        (∀ v ∈ items, v.isData = true) →
          stagedNodeText env (d.set k (.array items)) inc (top (d.set k (.array items))) true []
              (top (d.set k (.array items))) [] (.block head body) =
            some (head.assemble ((items.filter (shows env true)).map itemText)) := by
  obtain ⟨staged, hfits, hplain, hst⟩ := h.staged hoff
  have htexts : ∀ v : Value φ, ∃ text, v.isData = true →
      ∀ (inc : Inclusion → Place φ → Except TemplateError String) (w : Value φ),
        expandLevel env (d.set k w) inc ((top (d.set k w)).child k v)
          [(top (d.set k w)).child k v] staged = .ok text := by
    intro v
    by_cases hv : v.isData = true
    · obtain ⟨text, htext⟩ := h.item hoff hfits hplain hv
      exact ⟨text, fun _ => htext⟩
    · exact ⟨"", fun hdata => absurd hdata hv⟩
  choose itemText hitem using htexts
  refine ⟨itemText, fun inc items hdata => ?_⟩
  have harray : (Value.array items).isData = true := Value.itemsAreData_iff.2 hdata
  have hwait : mustWait head.binding true [] = false := by simp [mustWait]
  have hresolved : Treeless.resolve env (d.set k (.array items)) head.binding
      (top (d.set k (.array items))) [] = _ := h.resolve harray
  have hfate := fate_plain h.passes hwait hresolved
    (display_clean harray head.inclusive head.raw)
  rw [if_pos (show (Value.array items).isArray = true from rfl), if_pos h.inclusive,
    child_top_path] at hfate
  rw [stagedNodeText, stageNode_block, hfate]
  by_cases hempty : items = []
  · subst hempty
    have : head.assemble [] = "" := by
      rw [Section.assemble]
      split <;> rfl
    change levelText env (d.set k (.array [])) inc (top (d.set k (.array []))) [] [] = _
    rw [levelText_nil, List.filter_nil, List.map_nil, this]
  · have hsize : (Value.array items).size ≠ 0 := by simpa [Value.size] using hempty
    simp only [if_neg hsize, bind, Except.bind, hst inc, h.anchored, pure, Except.pure]
    change levelText env _ inc _ [] [.block head staged] = _
    rw [levelText_singleton]
    exact h.expand hdata fun v hv w => hitem v (hdata v hv) inc w

end Loop

end Treeless

open Treeless in
/-- A render of one section over items. -/
theorem Run.outcome_loop {env : Env φ} (hoff : env.settings.errorOnMissingTags = false)
    {d : Value φ} {k : String} {head : Section} {body : List Node} (h : Loop d k head body)
    (delimiters : Delimiters) :
    ∃ itemText : Value φ → String, ∀ items : List (Value φ), (∀ v ∈ items, v.isData = true) →
      outcome env ⟨[.block head body], delimiters⟩ (d.set k (.array items)) =
        .ok (head.assemble ((items.filter (shows env true)).map itemText)) := by
  obtain ⟨itemText, htext⟩ := h.stagedNodeText_eq hoff
  refine ⟨itemText, fun items hdata => ?_⟩
  have hplain : Node.AllPlain [.block head body] := ⟨⟨h.plain, h.gapless.plain⟩, trivial⟩
  have harray : (Value.array items).isData = true := Value.itemsAreData_iff.2 hdata
  rw [outcome_plain (h.data_set harray) hplain, ← toOption_eq_some,
    ← htext (Treeless.includeText env (d.set k (.array items)) maxPartialDepth) items hdata,
    ← stagedText_singleton]
  rfl

open Treeless in
/-- **Items are independent.** A section that joins its items writes for two lists of items, one after
the other, what it writes for each. A section that lists its items lists what it writes for each of
those that are shown. -/
theorem Run.outcome_items {env : Env φ} (hoff : env.settings.errorOnMissingTags = false)
    {d : Value φ} {k : String} {head : Section} {body : List Node} (h : Loop d k head body)
    (delimiters : Delimiters) :
    (head.opener.directive = some .sectionInclude →
      ∀ before after : List (Value φ), (∀ v ∈ before ++ after, v.isData = true) →
        ∃ text text',
          outcome env ⟨[.block head body], delimiters⟩ (d.set k (.array before)) = .ok text ∧
          outcome env ⟨[.block head body], delimiters⟩ (d.set k (.array after)) = .ok text' ∧
          outcome env ⟨[.block head body], delimiters⟩ (d.set k (.array (before ++ after))) =
            .ok (text ++ text')) ∧
    (head.opener.directive = some .listSection →
      ∀ items : List (Value φ), (∀ v ∈ items, v.isData = true) →
        ∃ (shown : Value φ → Bool) (texts : List String),
          (∀ v ∈ items, ∀ s, display env true v head.raw s = .ok (shown v) s) ∧
          List.Forall₂ (fun v text =>
              outcome env ⟨[.block head body], delimiters⟩ (d.set k (.array [v])) = .ok text)
            (items.filter shown) texts ∧
          outcome env ⟨[.block head body], delimiters⟩ (d.set k (.array items)) =
            .ok (Text.joinList texts)) := by
  obtain ⟨itemText, htext⟩ := outcome_loop hoff h delimiters
  constructor
  · intro hdirective before after hdata
    have hjoin : ∀ texts, head.assemble texts = String.join texts := fun texts => by
      simp [Section.assemble, Section.list, hdirective]
    refine ⟨_, _, htext before fun v hv => hdata v (List.mem_append_left _ hv),
      htext after fun v hv => hdata v (List.mem_append_right _ hv), ?_⟩
    rw [htext _ hdata]
    simp only [hjoin, List.filter_append, List.map_append, String.join_append]
  · intro hdirective items hdata
    have hjoin : ∀ texts, head.assemble texts = Text.joinList texts := fun texts => by
      simp [Section.assemble, Section.list, hdirective]
    refine ⟨shows env true, (items.filter (shows env true)).map itemText,
      fun v hv => display_eq_shows (hdata v hv) true head.raw, ?_, ?_⟩
    · rw [List.forall₂_map_right_iff, List.forall₂_same]
      intro v hv
      obtain ⟨hmem, hshown⟩ := List.mem_filter.1 hv
      have hone : ∀ w ∈ [v], w.isData = true := fun w hw => by
        rw [List.mem_singleton.1 hw]
        exact hdata v hmem
      rw [htext [v] hone, hjoin, List.filter_cons, if_pos hshown]
      rfl
    · rw [htext items hdata, hjoin]

namespace Basket

def data : Value Unit := .record [("unit", .string "kg")]

/-- A record with a list of its own. -/
def goods (name : String) (weights : List String) : Value Unit :=
  .record [("name", .string name), ("weights", .array (weights.map .string))]

def env : Env Unit := ⟨⟨fun _ _ _ _ => .ok .null⟩, .default, Number.specFormatter, []⟩

def head (directive : Directive) (path : String) (inContext : Bool) : Section :=
  ⟨⟨"", some directive, .ofPath path inContext, [], none, false⟩, .ofPath path inContext, []⟩

def tag (path : String) (inContext : Bool) : Node :=
  .tag ⟨"", none, .ofPath path inContext, [], none, false⟩

/-- The name by its whole path, and the weights with a unit that all the goods share. -/
def body : List Node :=
  [tag "xs.name" false, .block (head .listSection "weights" true) [tag "" true, tag "unit" false],
    .text ";"]

theorem loop {directive : Directive} (h : directive ≠ .sectionExclude ∧ directive ≠ .passSection) :
    Treeless.Loop data "xs" (head directive "xs" false) body where
  record := ⟨_, rfl⟩
  data := rfl
  undotted := by decide
  key := rfl
  links := rfl
  inclusive := by simpa [Section.inclusive, head] using h.1
  passes := by simpa [Section.passesText, head] using h.2
  gapless :=
    ⟨⟨⟨⟨rfl, fun _ => by decide⟩, rfl⟩, by decide⟩,
      ⟨⟨⟨⟨rfl, by decide⟩, rfl, rfl⟩, by decide⟩,
        ⟨⟨⟨rfl, by decide⟩, rfl⟩, by decide⟩, ⟨⟨⟨rfl, fun _ => by decide⟩, rfl⟩, by decide⟩, trivial⟩,
      trivial, trivial⟩

end Basket

open Basket in
/-- Goods one after the other, with nothing between them or as a list in which nothing stands for
what is not there. -/
theorem Run.outcome_items_basket :
    (∃ text text',
      outcome env ⟨[.block (head .sectionInclude "xs" false) body], .default⟩
          (data.set "xs" (.array [goods "ham" ["1", "2"]])) = .ok text ∧
        outcome env ⟨[.block (head .sectionInclude "xs" false) body], .default⟩
          (data.set "xs" (.array [.null, goods "tea" ["3"]])) = .ok text' ∧
        outcome env ⟨[.block (head .sectionInclude "xs" false) body], .default⟩
          (data.set "xs" (.array [goods "ham" ["1", "2"], .null, goods "tea" ["3"]])) =
            .ok (text ++ text')) ∧
      ∃ (shown : Value Unit → Bool) (texts : List String),
        List.Forall₂ (fun v text =>
            outcome env ⟨[.block (head .listSection "xs" false) body], .default⟩
              (data.set "xs" (.array [v])) = .ok text)
          ([goods "ham" ["1", "2"], .null, goods "tea" ["3"]].filter shown) texts ∧
        outcome env ⟨[.block (head .listSection "xs" false) body], .default⟩
          (data.set "xs" (.array [goods "ham" ["1", "2"], .null, goods "tea" ["3"]])) =
            .ok (Text.joinList texts) := by
  have hdata : ∀ v ∈ [goods "ham" ["1", "2"], .null, goods "tea" ["3"]], v.isData = true := by
    decide
  refine ⟨(outcome_items rfl (loop (by decide)) .default).1 rfl [goods "ham" ["1", "2"]]
    [.null, goods "tea" ["3"]] hdata, ?_⟩
  obtain ⟨shown, texts, -, hone, hall⟩ :=
    (outcome_items (rfl : env.settings.errorOnMissingTags = false) (loop (by decide)) .default).2
      rfl _ hdata
  exact ⟨shown, texts, hone, hall⟩

open Basket in
example : (Treeless.render env ⟨[.block (head .listSection "xs" false) body], .default⟩
    (data.set "xs" (.array [goods "ham" ["1", "2"], .null, goods "tea" ["3"]]))).toOption =
      some "ham1kg and 2kg; and tea3kg;" := by
  decide +kernel

end TextTemplate
