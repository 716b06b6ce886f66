import TextTemplate.Proofs.Exclusive
import TextTemplate.Proofs.Place.Padded

/-!
The second pass over data with a null more. It makes the same text of it, as long as no section that
is shown for want of what the null is bound to has a body that looks into the scope around it. When
the null is there, that scope is the null.
-/
namespace TextTemplate
variable {φ : Type}

namespace Node

mutual

/-- Whether all bodies are good of sections that are shown for want of something under a name. -/
def wanting (name : String) (good : List Node → Bool) : Node → Bool
  | block head body =>
    (head.inclusive || head.key.segments.getLast? != some name || good body) &&
      allWanting name good body
  | _ => true

def allWanting (name : String) (good : List Node → Bool) : List Node → Bool
  | [] => true
  | node :: nodes => wanting name good node && allWanting name good nodes

end

variable {name : String} {good : List Node → Bool}

theorem wanting_block {head : Section} {body : List Node}
    (h : (Node.block head body).wanting name good = true) :
    (head.inclusive = false → head.key.segments.getLast? = some name → good body = true) ∧
      allWanting name good body = true := by
  simp only [wanting, Bool.and_eq_true, Bool.or_eq_true, bne_iff_ne, or_assoc] at h
  refine ⟨fun hi hlast => ?_, h.2⟩
  rcases h.1 with hincl | hne | hgood
  · cases hi.symm.trans hincl
  · exact absurd hlast hne
  · exact hgood

theorem wanting_of_mem {node : Node} {nodes : List Node} (hm : node ∈ nodes)
    (h : allWanting name good nodes = true) : node.wanting name good = true := by
  induction nodes with
  | nil => cases hm
  | cons first nodes ih =>
    simp only [allWanting, Bool.and_eq_true] at h
    rcases List.mem_cons.1 hm with rfl | hm
    · exact h.1
    · exact ih hm h.2

end Node

/-- A key without empty segments keeps none when it is anchored to a path without any. -/
theorem Key.NoGaps.anchored {key : Key} (h : key.NoGaps) (hk : key.Formed) {path : String}
    (hpath : ∀ segment ∈ splitPath path, segment ≠ "") : (key.anchored path).NoGaps := by
  rw [Key.anchored]
  split
  · intro segment hm
    simp only [Key.ofPath, splitPath_joinPath, List.mem_append] at hm
    exact hm.elim (hpath segment) fun hm => h segment (hk.segments ▸ hm)
  · exact h

namespace Treeless

section Entering

variable {env : Env φ} {data : Value φ} {head : Section} {p q : Place φ} {os : List (Place φ)}

theorem Enters.ofItem {i : Nat}
    (hr : resolve env data head.binding p os = .ok (some (.plain q q.bound)))
    (hp : head.passesText = false) (ha : q.bound.isArray = true) (hi : head.inclusive = true)
    (hlt : i < q.bound.size) (hq : q.bound.isData = true)
    (hitem : (q.item q.bound i).bound.isData = true)
    (hshown : shows env true (q.item q.bound i).bound = true) :
    Enters env data head p os (q.item q.bound i) (q.item q.bound i :: os) := by
  have henters := Enters.item (w := (q.item q.bound i).bound) hr hp ha hi hlt
    (by rw [Resolution.plain_inner]; exact Place.read_of_isData _ _ hq)
    (by rw [Resolution.plain_inner]; exact Place.read_of_isData _ _ hitem)
    (by rw [display_clean hitem, hshown])
  rwa [Resolution.plain_inner] at henters

theorem Enters.ofPlain (hr : resolve env data head.binding p os = .ok (some (.plain q q.bound)))
    (hp : head.passesText = false) (ha : q.bound.isArray = false) (hq : q.bound.isData = true)
    (hshown : shows env head.inclusive q.bound = true) : Enters env data head p os q os := by
  have henters := Enters.plain hr hp ha (by rw [← hshown]; exact display_clean hq _ _)
  have hdynamic : (Resolution.plain q q.bound).isDynamic = false := ha
  rwa [Resolution.plain_inner, hdynamic] at henters

end Entering

section Passes

variable {name : String} {env : Env φ} {d d' : Value φ}
  {inc inc' : Inclusion → Place φ → Except TemplateError String} {p p' : Place φ}
  {os os' : List (Place φ)} (hoff : env.settings.errorOnMissingTags = false)
  (hname : '.' ∉ name.toList) (hflag : name ≠ displayKey)

theorem tagText_null {tag : Tag} : tagText env tag (.null : Value φ) = "" := by
  simp [tagText, valueText]

include hoff hname in
theorem levelText_tag_padded {tag : Tag} (ht : tag.Plain) (hgaps : tag.key.NoGaps)
    (h : p.Padded name p') (ho : List.Forall₂ (Place.Padded name) os os') :
    levelText env d inc p os [.tag tag] = levelText env d' inc' p' os' [.tag tag] := by
  obtain ⟨r, r', hr, hr', hanswers⟩ :=
    resolve_padded env d d' hname (b := tag.binding) ht.links ht.key hgaps h ho
  rw [levelText_singleton, levelText_singleton, nodeText, nodeText, settleNode, settleNode, hr, hr']
  · cases hanswers with
    | neither => rfl
    | both hpadded =>
      obtain ⟨q, q', hq, rfl, rfl⟩ := hpadded
      exact congrArg some (hq.bound.tagText env tag).symm
    | extra he =>
      obtain ⟨⟨q, hq, rfl⟩, -⟩ := he
      simp only [bind, Except.bind, missing_off hoff]
      exact congrArg some tagText_null.symm
  all_goals simp

/-- The items of a section one by one. -/
theorem expandItems_cons {render : Place φ → List (Place φ) → Except TemplateError String}
    {raw : String} (hp : p.bound.isData = true) {i : Nat}
    (hi : (p.item p.bound i).bound.isData = true) (rest : List Nat) :
    (expandItems env d raw render p os (i :: rest)).toOption =
      if shows env true (p.item p.bound i).bound then
        (render (p.item p.bound i) (p.item p.bound i :: os)).toOption.bind fun text =>
          (expandItems env d raw render p os rest).toOption.map (text :: ·)
      else (expandItems env d raw render p os rest).toOption := by
  rw [expandItems]
  simp only [Place.read_of_isData _ _ hp, Place.read_of_isData _ _ hi, display_clean hi, bind,
    Except.bind]
  split
  · cases render (p.item p.bound i) (p.item p.bound i :: os) with
    | error e => rfl
    | ok text => cases expandItems env d raw render p os rest <;> rfl
  · rfl

include hflag in
private theorem expandItems_padded
    {render render' : Place φ → List (Place φ) → Except TemplateError String}
    {raw : String} (h : p.Padded name p') {indices : List Nat}
    (hbody : ∀ i ∈ indices, shows env true (p.item p.bound i).bound = true →
      (render (p.item p.bound i) (p.item p.bound i :: os)).toOption =
        (render' (p'.item p'.bound i) (p'.item p'.bound i :: os')).toOption) :
    (expandItems env d raw render p os indices).toOption =
      (expandItems env d' raw render' p' os' indices).toOption := by
  induction indices with
  | nil => rfl
  | cons i rest ih =>
    have hitem := h.item i
    rw [expandItems_cons h.data.1 hitem.data.1, expandItems_cons h.data.2 hitem.data.2,
      hitem.bound.shows env hflag, ih fun j hj => hbody j (List.mem_cons_of_mem _ hj)]
    split
    · rw [hbody i List.mem_cons_self ‹_›]
    · rfl

section Blocks

variable {head : Section} {nodes nodes' : List Node} (hs : head.Plain) (h : p.Padded name p')
  (ho : List.Forall₂ (Place.Padded name) os os')
  (hin : ∀ q xs q' xs', Enters env d head p os q xs → Enters env d' head p' os' q' xs' →
    q.Padded name q' → List.Forall₂ (Place.Padded name) xs xs' →
    levelText env d inc q xs nodes = levelText env d' inc' q' xs' nodes')

include hflag hs h ho hin in
/-- A section in the second pass, whose key leads to one place over the two data. -/
private theorem levelText_found_padded {q q' : Place φ} (hq : q.Padded name q')
    (hr : resolve env d head.binding p os = .ok (some (.plain q q.bound)))
    (hr' : resolve env d' head.binding p' os' = .ok (some (.plain q' q'.bound))) :
    levelText env d inc p os [.block head nodes] =
      levelText env d' inc' p' os' [.block head nodes'] := by
  rw [levelText_singleton, levelText_singleton, nodeText, nodeText,
    expand_found hs.passes hq.data.1 hr, expand_found hs.passes hq.data.2 hr', hq.bound.isArray,
    hq.bound.size, hq.bound.shows env hflag]
  cases ha : q.bound.isArray with
  | true =>
    have ha' : q'.bound.isArray = true := hq.bound.isArray.trans ha
    cases hi : head.inclusive with
    | true =>
      simp only [if_true]
      rw [toOption_bind, toOption_bind]
      refine congrArg (Option.bind · _) (expandItems_padded hflag hq fun i hm hshown => ?_)
      have hitem := hq.item i
      have hshown' : shows env true (q'.item q'.bound i).bound = true :=
        (hitem.bound.shows env hflag true).trans hshown
      have hlt : i < q.bound.size := List.mem_range.1 hm
      exact hin _ _ _ _
        (.ofItem hr hs.passes ha hi hlt hq.data.1 hitem.data.1 hshown)
        (.ofItem hr' hs.passes ha' hi (hq.bound.size.symm ▸ hlt) hq.data.2 hitem.data.2 hshown')
        hitem (.cons hitem ho)
    | false =>
      by_cases hn : q.bound.size = 0
      · simp only [hn, if_true, Bool.false_eq_true, if_false]
        exact hin p os p' os' (.empty hr hs.passes ha hi hn)
          (.empty hr' hs.passes ha' hi (hq.bound.size.trans hn)) h ho
      · simp only [hn, if_true, Bool.false_eq_true, if_false]
  | false =>
    cases hshown : shows env head.inclusive q.bound with
    | true =>
      have hshown' := (hq.bound.shows env hflag head.inclusive).trans hshown
      simp only [Bool.false_eq_true, if_false, if_true]
      exact hin _ _ _ _ (.ofPlain hr hs.passes ha hq.data.1 hshown)
        (.ofPlain hr' hs.passes (hq.bound.isArray.trans ha) hq.data.2 hshown') hq ho
    | false => simp only [Bool.false_eq_true, if_false]

include hoff hs in
/-- A section in the second pass, whose key leads to the null and is missing without it. -/
private theorem levelText_null_padded {q' : Place φ} (hq' : q'.bound = .null)
    (hr : resolve env d head.binding p os = .ok none)
    (hr' : resolve env d' head.binding p' os' = .ok (some (.plain q' q'.bound)))
    (hnull : head.inclusive = false → Enters env d' head p' os' q' os' →
      levelText env d inc p os nodes = levelText env d' inc' q' os' nodes') :
    levelText env d inc p os [.block head nodes] =
      levelText env d' inc' p' os' [.block head nodes'] := by
  have hdata : q'.bound.isData = true := by rw [hq']; rfl
  have hsingle : q'.bound.isArray = false := by rw [hq']; rfl
  have hshows : shows env head.inclusive q'.bound = !head.inclusive := by
    rw [hq']
    cases head.inclusive <;> rfl
  rw [levelText_singleton, levelText_singleton, nodeText, nodeText, expand_missing hr,
    expand_found hs.passes hdata hr', missing_off hoff, hsingle, hshows]
  cases hi : head.inclusive with
  | true => simp only [bind, Except.bind, Bool.not_true, Bool.false_eq_true, if_false, if_true]
  | false =>
    simp only [bind, Except.bind, Bool.not_false, Bool.false_eq_true, if_false, if_true]
    exact hnull hi (.ofPlain hr' hs.passes hsingle hdata (hshows.trans (by rw [hi]; rfl)))

include hoff hname hflag hs h ho hin in
/-- A section in the second pass, from what its body comes to where it is entered. -/
theorem levelText_block_padded (hgaps : head.key.NoGaps)
    (hnull : head.inclusive = false → head.key.segments.getLast? = some name →
      ∀ q', Enters env d' head p' os' q' os' →
      levelText env d inc p os nodes = levelText env d' inc' q' os' nodes') :
    levelText env d inc p os [.block head nodes] =
      levelText env d' inc' p' os' [.block head nodes'] := by
  obtain ⟨r, r', hr, hr', hanswers⟩ :=
    resolve_padded env d d' hname (b := head.binding) hs.links hs.key hgaps h ho
  cases hanswers with
  | neither =>
    rw [levelText_singleton, levelText_singleton, nodeText, nodeText, expand_missing hr,
      expand_missing hr', missing_off hoff]
    cases hi : head.inclusive with
    | true => simp only [if_true, bind, Except.bind]
    | false =>
      simp only [Bool.false_eq_true, if_false, bind, Except.bind]
      exact hin p os p' os' (.missing hr hi) (.missing hr' hi) h ho
  | both hpadded =>
    obtain ⟨q, q', hq, rfl, rfl⟩ := hpadded
    exact levelText_found_padded hflag hs h ho hin hq hr hr'
  | extra he =>
    obtain ⟨⟨q', hq', rfl⟩, hlast⟩ := he
    rw [← hq'] at hr'
    exact levelText_null_padded hoff hs hq' hr hr' fun hi henters => hnull hi hlast q' henters

end Blocks

mutual

theorem levelText_node_padded (hoff : env.settings.errorOnMissingTags = false)
    (hname : '.' ∉ name.toList) (hflag : name ≠ displayKey) : (node : Node) →
    ∀ {p p' : Place φ} {os os' : List (Place φ)}, Node.AllGapless [node] →
    node.wanting name Node.allClosed = true → Stance env d p os → Stance env d' p' os' →
    p.Padded name p' → List.Forall₂ (Place.Padded name) os os' →
    levelText env d inc p os [node] = levelText env d' inc' p' os' [node]
  | .text text, _, _, _, _, _, _, _, _, _, _ => by rw [levelText_text, levelText_text]
  | .inclusion _, _, _, _, _, hn, _, _, _, _, _ => hn.1.elim
  | .tag tag, _, _, _, _, hn, _, _, _, h, ho => levelText_tag_padded hoff hname hn.1.1 hn.1.2 h ho
  | .block head body, p, p', os, os', hn, hi, hp, hp', h, ho => by
    have hformed : head.Formed := (Node.AllPlain.formed (Node.AllGapless.plain hn)).1.1
    obtain ⟨⟨hs, hgaps⟩, hbody⟩ := hn.1
    obtain ⟨hclosed, hib⟩ := Node.wanting_block hi
    refine levelText_block_padded hoff hname hflag hs h ho
      (fun q xs q' xs' he he' hq hxs => levelText_padded hoff hname hflag body hbody hib
        (hp.enter hformed he) (hp'.enter hformed he') hq hxs) hgaps
      fun hexclusive hlast q' he' => ?_
    exact (levelText_padded hoff hname hflag body hbody hib hp hp' h ho).trans
      (levelText_closed body (Node.AllGapless.plain hbody)
        (hclosed hexclusive hlast) hp' (hp'.enter hformed he'))

/-- **The second pass makes the same text** with the null and without it. -/
theorem levelText_padded (hoff : env.settings.errorOnMissingTags = false)
    (hname : '.' ∉ name.toList) (hflag : name ≠ displayKey) : (nodes : List Node) →
    ∀ {p p' : Place φ} {os os' : List (Place φ)}, Node.AllGapless nodes →
    Node.allWanting name Node.allClosed nodes = true → Stance env d p os → Stance env d' p' os' →
    p.Padded name p' → List.Forall₂ (Place.Padded name) os os' →
    levelText env d inc p os nodes = levelText env d' inc' p' os' nodes
  | [], _, _, _, _, _, _, _, _, _, _ => by rw [levelText_nil, levelText_nil]
  | node :: nodes, _, _, _, _, hn, hi, hp, hp', h, ho => by
    simp only [Node.allWanting, Bool.and_eq_true] at hi
    rw [← List.singleton_append, levelText_append, levelText_append,
      levelText_node_padded hoff hname hflag node ⟨hn.1, trivial⟩ hi.1 hp hp' h ho,
      levelText_padded hoff hname hflag nodes hn.2 hi.2 hp hp' h ho]

end

end Passes

end Treeless

end TextTemplate
