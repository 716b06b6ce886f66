import TextTemplate.Proofs.Copies.Marks

/-!
Copies of repeated sections. The first pass leaves a copy of a repeated section, under the path of
the data it has found, and the second pass looks that path up again. Over data without functions the
copy finds the same data, unless an item of a section over the same path comes in between.
-/
namespace TextTemplate
variable {φ : Type}

namespace Treeless

variable {env : Env φ} {data : Value φ} {place q : Place φ} {inScope : Bool} {waiting : List String}

/-- The copies the second pass comes to from a place, with what their bindings come to there. -/
inductive Reaches (env : Env φ) (data : Value φ) : Place φ → List (Place φ) → List (Marked φ) →
    Copy φ → Except TemplateError (Option (Resolution φ)) → Prop where
  | here {place : Place φ} {overlays : List (Place φ)} {ms : List (Marked φ)} {copy : Copy φ}
      {head : Section} {body : List (Marked φ)} (mem : .kept copy head body ∈ ms) :
      Reaches env data place overlays ms copy (resolve env data head.binding place overlays)
  | kept {place p : Place φ} {overlays os : List (Place φ)} {ms : List (Marked φ)}
      {copy copy' : Copy φ} {head : Section} {body : List (Marked φ)}
      {bound : Except TemplateError (Option (Resolution φ))} (mem : .kept copy head body ∈ ms)
      (enters : Enters env data head place overlays p os)
      (inside : Reaches env data p os body copy' bound) :
      Reaches env data place overlays ms copy' bound
  | passed {place p : Place φ} {overlays os : List (Place φ)} {ms : List (Marked φ)}
      {copy : Copy φ} {head : Section} {body : List (Marked φ)}
      {bound : Except TemplateError (Option (Resolution φ))} (mem : .passed head body ∈ ms)
      (enters : Enters env data head place overlays p os)
      (inside : Reaches env data p os body copy bound) :
      Reaches env data place overlays ms copy bound

/-- Where the second pass stands among the copies of the sections at the paths `waiting`. Its
overlays stand at the same paths, and each is smaller than the sequence in the data there. -/
structure Expanding (env : Env φ) (data : Value φ) (waiting : List String) (place : Place φ)
    (overlays : List (Place φ)) : Prop where
  stance : Stance env data place overlays
  paths : ∀ path, path ∈ waiting ↔ ∃ o ∈ overlays, o.path = path
  smaller : ∀ o ∈ overlays, ∃ a, Place.Within env.host env.settings.errorOnFuncFailure (.top data) a ∧
    a.Clean ∧ a.path = o.path ∧ a.bound.isArray = true ∧ sizeOf o.bound < sizeOf a.bound
  top : waiting = [] → place = .top data

theorem Expanding.start (hd : data.isData = true) : Expanding env data [] (.top data) [] where
  stance := .top hd
  paths := by simp
  smaller := by simp
  top _ := rfl

variable {overlays : List (Place φ)} {copy : Copy φ} {head : Section}

/-- What a copy is bound to: the sequence it was made of, or an item at the path of the sequence. -/
theorem Expanding.bound (h : Expanding env data waiting place overlays)
    (hc : Copies env data waiting copy head q) :
    ∃ p, p.path = q.path ∧
      findPlace env.host (env.policy head.raw) place overlays head.key = .ok (some p) ∧
      (p = q ∧ q.path ∉ waiting ∨
        q.path ∈ waiting ∧ p ∈ overlays ∧ sizeOf p.bound < sizeOf q.bound) := by
  rcases hc.key with ⟨hne, hkey⟩ | ⟨hroot, hin, htext, hwait⟩
  · have hk : (Key.ofPath q.path false).Formed := Key.formed_ofPath fun _ => hne
    rw [hkey, findPlace, if_neg (by simp [Key.ofPath])]
    cases hf : overlays.find? fun o => pathCovers o.path (Key.ofPath q.path false).text with
    | some o =>
      -- An overlay that covers the sequence stands at it, since nothing stands in a sequence.
      have ho := List.mem_of_find?_eq_some hf
      have hcov : pathCovers o.path q.path = true :=
        List.find?_some (p := fun o : Place φ => pathCovers o.path q.path) hf
      obtain ⟨a, hain, haclean, hapath, haarray, hsmaller⟩ := h.smaller o ho
      have hread : a.read env.host (env.policy "") = .ok a.bound := haclean.read
      have hqa : q = a := hain.eq_of_covers hc.within hread haarray (hapath ▸ hcov)
      rw [← hqa] at hapath hsmaller
      refine ⟨o, hapath.symm, ?_, .inr ⟨(h.paths _).2 ⟨o, ho, hapath.symm⟩, ho, hsmaller⟩⟩
      exact Place.Within.search_path .base .base hk rfl hapath head.raw
    | none =>
      have hcov : Place.covered overlays q.path = false := by
        simpa [Place.covered, Key.ofPath] using hf
      refine ⟨q, rfl, ?_, .inl ⟨rfl, fun hmem => ?_⟩⟩
      · have hsearch := h.stance.footing.place.search _ hk rfl hcov head.raw
        exact hsearch.trans (Place.Within.search_path .base hc.within hk rfl rfl head.raw)
      · obtain ⟨o, ho, hpath⟩ := (h.paths _).1 hmem
        have := List.find?_eq_none.1 hf o ho
        exact this (by simp [hpath, Key.ofPath, pathCovers_iff])
  · have hnil : head.key.segments = [] := by rw [hc.formed.segments, htext, splitPath_empty]
    refine ⟨q, rfl, ?_, .inl ⟨rfl, by simp [hwait]⟩⟩
    rw [h.top hwait, hc.within.eq_base hroot, findPlace, if_pos hin]
    simp [Place.search, hin, hnil, bind, Except.bind, pure, Except.pure]

theorem Expanding.resolve_eq (h : Expanding env data waiting place overlays)
    (hc : Copies env data waiting copy head q) :
    ∃ p, resolve env data head.binding place overlays = .ok (some (.plain p p.bound)) ∧ p.Clean ∧
      p.path = q.path ∧ findPlace env.host (env.policy head.raw) place overlays head.key =
        .ok (some p) ∧
      (p = q ∧ q.path ∉ waiting ∨
        q.path ∈ waiting ∧ p ∈ overlays ∧ sizeOf p.bound < sizeOf q.bound) := by
  obtain ⟨p, hpath, hf, hp⟩ := h.bound hc
  rcases resolve_clean env data (b := head.binding) hc.links h.stance.clean
    h.stance.overlaysClean with ⟨hf', -⟩ | ⟨p', hf', hclean, hr⟩
  · cases hf.symm.trans hf'
  · cases hf.symm.trans hf'
    exact ⟨p, hr, hclean, hpath, hf, hp⟩

/-- An item is smaller than its sequence. -/
theorem sizeOf_item {p : Place φ} (ha : p.bound.isArray = true) {i : Nat} (hi : i < p.bound.size) :
    sizeOf (p.item p.bound i).bound < sizeOf p.bound := by
  cases hb : p.bound with
  | array items =>
    rw [hb] at hi
    have hlt : i < items.length := hi
    have hitem : (p.item (.array items) i).bound = items[i] := by
      show items.getD i .null = items[i]
      simp [hlt]
    have hmem := List.sizeOf_lt_of_mem (List.getElem_mem hlt)
    rw [hitem, Value.array.sizeOf_spec]
    omega
  | _ => rw [hb] at ha; cases ha

/-- Inside a copy the second pass stands among one copy more. -/
theorem Expanding.enter (h : Expanding env data waiting place overlays)
    (hc : Copies env data waiting copy head q) {p : Place φ} {os : List (Place φ)}
    (he : Enters env data head place overlays p os) :
    Expanding env data (copy.path :: waiting) p os := by
  obtain ⟨x, hr, hclean, hpath, hf, hx⟩ := h.resolve_eq hc
  have hstance : Stance env data x overlays := h.stance.found hc.formed hf
  cases he with
  | missing resolved exclusive =>
    rw [hc.inclusive] at exclusive
    cases exclusive
  | passed resolved passes =>
    rw [hc.passes] at passes
    cases passes
  | empty resolved plain repeating exclusive size =>
    rw [hc.inclusive] at exclusive
    cases exclusive
  | @item r v w i resolved plain repeating inclusive lt reads holds shown =>
    rw [hr] at resolved
    cases resolved
    rw [Resolution.plain_inner] at reads holds ⊢
    rw [hclean.read] at reads
    cases reads
    have hsize : sizeOf (x.item x.bound i).bound < sizeOf q.bound := by
      have hle : sizeOf x.bound ≤ sizeOf q.bound := by
        rcases hx with ⟨rfl, -⟩ | ⟨-, -, hlt⟩
        · exact Nat.le_refl _
        · exact Nat.le_of_lt hlt
      exact Nat.lt_of_lt_of_le (sizeOf_item repeating lt) hle
    have hitem : (x.item x.bound i).path = q.path := hpath
    refine ⟨hstance.item i, fun path => ?_, fun o ho => ?_, by simp⟩
    · rw [List.mem_cons, h.paths]
      simp only [List.mem_cons, exists_eq_or_imp, hitem, hc.path]
      rw [eq_comm]
    · rcases List.mem_cons.1 ho with rfl | ho
      · exact ⟨q, hc.within, hc.clean, hitem.symm, hc.array, hsize⟩
      · exact h.smaller o ho
  | plain resolved plain single shown =>
    rw [hr] at resolved
    cases resolved
    rw [Resolution.plain_inner]
    have harray : x.bound.isArray = false := single
    have hdynamic : (Resolution.plain x x.bound).isDynamic = false := single
    rw [hdynamic, if_neg (by simp)]
    rcases hx with ⟨rfl, -⟩ | ⟨hmem, -, -⟩
    · rw [hc.array] at harray
      cases harray
    · refine ⟨hstance, fun path => ?_, h.smaller, by simp⟩
      rw [List.mem_cons, h.paths]
      refine ⟨fun hp => hp.elim (fun hp => ?_) fun hp => hp, .inr⟩
      rw [hp, hc.path]
      exact (h.paths _).1 hmem

/-- **A copy finds what it was made of**, unless a section over the same path is around it. -/
theorem bound_of_reaches {ms : List (Marked φ)} {copy : Copy φ}
    {bound : Except TemplateError (Option (Resolution φ))}
    (hreach : Reaches env data place overlays ms copy bound) {waiting : List String}
    (h : Expanding env data waiting place overlays) (hg : AllGood env data waiting ms) :
    ∃ r, bound = .ok (some r) ∧ (r.value = some copy.found ↔ copy.path ∉ copy.around) := by
  induction hreach generalizing waiting with
  | @here place overlays ms copy head body mem =>
    obtain ⟨⟨q, hc⟩, -⟩ := allGood_iff.1 hg _ mem
    obtain ⟨x, hr, -, -, -, hx⟩ := h.resolve_eq hc
    refine ⟨_, hr, ?_⟩
    rw [hc.path, hc.around, hc.found]
    rcases hx with ⟨rfl, hnot⟩ | ⟨hmem, -, hlt⟩
    · exact ⟨fun _ => hnot, fun _ => rfl⟩
    · refine ⟨fun hv => ?_, fun hnot => absurd hmem hnot⟩
      have hv : x.bound = q.bound := Option.some.inj hv
      exact absurd hlt (hv ▸ Nat.lt_irrefl _)
  | kept mem enters inside ih =>
    obtain ⟨⟨q, hc⟩, hbody⟩ := allGood_iff.1 hg _ mem
    exact ih (h.enter hc enters) hbody
  | passed mem enters inside ih => exact (allGood_iff.1 hg _ mem).elim

end Treeless

theorem Node.AllFormed.sound {data : Value φ} (hd : data.isData = true) {nodes : List Node}
    (h : Node.AllFormed nodes) : Node.AllSound (fun _ => True) data nodes :=
  Node.EveryOf.imp (fun _ ht => ht) (fun _ _ => trivial) (fun _ hs => ⟨hs.keys, .inl hd⟩) nodes h

/-- **Copies of repeated sections.** A render is the first pass with marks and then the second over
what it leaves. Each time the second pass comes to a copy it finds a value, and that is the sequence
the first pass has found unless a section over the same path is around the copy. -/
theorem Run.outcome_copies {env : Env φ} {data : Value φ} (hd : data.isData = true)
    {template : Template} (hf : template.Formed)
    (ht : ∀ name t, (name, t) ∈ env.templates → t.Formed) :
    let inc := Treeless.includeText env data maxPartialDepth
    let marked := Treeless.markNodes env data inc (.top data) true [] template.nodes
    Run.outcome env template data = marked >>= (fun ms =>
        Treeless.expandLevel env data inc (.top data) [] (Marked.eraseAll ms)) ∧
      ∀ ms, marked = .ok ms → ∀ copy bound,
        Treeless.Reaches env data (.top data) [] ms copy bound →
        ∃ r, bound = .ok (some r) ∧ (r.value = some copy.found ↔ copy.path ∉ copy.around) := by
  intro inc marked
  have hn := hf.sound hd
  have hfun := Value.isFunction_of_isData hd
  refine ⟨?_, fun ms hms copy bound hreach => ?_⟩
  · have hinc := follows_includeText maxPartialDepth (.inr hd) hfun
      fun name t hm => (ht name t hm).sound hd
    have hmarks : marked.map Marked.eraseAll = _ :=
      Treeless.eraseAll_markNodes template.nodes (.top data) true []
    rw [outcome_eq_treeless (.inr hd) hfun hinc hn, Treeless.render, Treeless.renderNodes, ← hmarks]
    cases marked <;> rfl
  · exact Treeless.bound_of_reaches hreach (.start hd)
      (Treeless.good_markNodes hd template.nodes (.top hd) hf ms hms)

namespace SamePath

def head (path : String) (inContext : Bool) : Section :=
  ⟨⟨"", some .sectionInclude, .ofPath path inContext, [], none, false⟩, .ofPath path inContext, []⟩

def itself : Tag := ⟨"{{.}}", none, .ofPath "" true, [], none, false⟩

def letters : Value Empty := .array [.string "p", .string "q"]

def data : Value Empty := .record [("a", .record [("ys", letters)])]

def env : Env Empty := ⟨⟨fun _ f _ _ => nomatch f⟩, .default, Number.specFormatter, []⟩

/-- The letters below `a`, each with a mark after it. -/
def once : Template := ⟨[.block (head "a.ys" false) [.tag itself, .text ";"]], .default⟩

/-- The same for each letter, with the sequence found a second time in the section over `a`. -/
def twice : Template :=
  ⟨[.block (head "a.ys" false) [.block (head "a" false)
    [.block (head "ys" true) [.tag itself, .text ";"]]]], .default⟩

theorem formed_head {path : String} {inContext : Bool} (h : inContext = false → path ≠ "") :
    (head path inContext).Formed :=
  ⟨by simpa [Binding.Formed, Binding.keys, Section.binding, head] using Key.formed_ofPath h,
    by simp [Section.passesText, head]⟩

/-- The place of the letters. -/
def place : Place Empty := ⟨⟨"a.ys", letters⟩, [⟨"a", .record [("ys", letters)]⟩, ⟨"", data⟩]⟩

end SamePath

open SamePath in
/-- A copy with no section around it is bound to the letters. -/
theorem Run.outcome_copies_once :
    ∃ r, Treeless.resolve env data (head "a.ys" false).binding (.top data) [] = .ok (some r) ∧
      r.value = some letters := by
  have htag : itself.binding.Formed := by
    simpa [Binding.Formed, Binding.keys, Tag.binding, itself] using
      (Key.formed_ofPath (by simp) : (Key.ofPath "" true).Formed)
  have hf : once.Formed := ⟨⟨formed_head (by simp), htag, trivial, trivial⟩, trivial⟩
  have hreach : Treeless.Reaches env data (.top data) []
      [.kept ⟨"a.ys", letters, []⟩ (head "a.ys" false) [.node (.tag itself), .node (.text ";")]]
      ⟨"a.ys", letters, []⟩ _ := .here (List.mem_singleton.2 rfl)
  obtain ⟨r, hr, hv⟩ := (Run.outcome_copies rfl hf (by simp [env])).2 _ rfl _ _ hreach
  exact ⟨r, hr, hv.2 (by simp)⟩

open SamePath in
/-- The inner copy is bound to a letter of the outer one. -/
theorem Run.outcome_copies_twice :
    ∃ ms copy r, Treeless.markNodes env data (Treeless.includeText env data maxPartialDepth)
        (.top data) true [] twice.nodes = .ok ms ∧
      Treeless.Reaches env data (.top data) [] ms copy (.ok (some r)) ∧
      r.value ≠ some copy.found := by
  have hletters : Treeless.resolve env data (head "a.ys" false).binding (.top data) [] =
      .ok (some (.plain place letters)) := rfl
  have hletter : Treeless.resolve env data ((head "ys" true).anchored "a").binding
      (place.item letters 0) [place.item letters 0] =
        .ok (some (.plain (place.item letters 0) (.string "p"))) := rfl
  refine ⟨[.kept ⟨"a.ys", letters, []⟩ (head "a.ys" false)
    [.kept ⟨"a.ys", letters, ["a.ys"]⟩ ((head "ys" true).anchored "a")
      [.node (.tag itself), .node (.text ";")]]], ⟨"a.ys", letters, ["a.ys"]⟩,
    .plain (place.item letters 0) (.string "p"), rfl, ?_, by simp [Treeless.Resolution.plain, letters]⟩
  refine .kept (List.mem_singleton.2 rfl)
    (.item (i := 0) hletters rfl rfl rfl (by decide) rfl rfl rfl) ?_
  exact hletter ▸ .here (List.mem_singleton.2 rfl)

end TextTemplate
