import TextTemplate.Proofs.Moved
import TextTemplate.Proofs.PaddedLevels
import TextTemplate.Proofs.Placeless

/-!
Visits to nodes over data with a null more. What settles over the data without it settles wherever the
passes come to, and what a visit makes of a single tag or section is read off the end the section comes
to in the first pass.
-/
namespace TextTemplate
variable {φ : Type}

namespace Treeless

/-- One visit over the two data. -/
inductive Visit.Padded (name : String) : Visit φ → Visit φ → Prop where
  | both {place place' far far' : Place φ} {overlays overlays' : List (Place φ)} (inScope : Bool)
      (waiting : List String) (hplace : place.Padded name place') (hfar : far.Padded name far')
      (hover : List.Forall₂ (Place.Padded name) overlays overlays') :
      Visit.Padded name (.both place inScope waiting far overlays)
        (.both place' inScope waiting far' overlays')
  | second {place place' : Place φ} {overlays overlays' : List (Place φ)}
      (hplace : place.Padded name place')
      (hover : List.Forall₂ (Place.Padded name) overlays overlays') :
      Visit.Padded name (.second place overlays) (.second place' overlays')

/-- A section among nodes or below them, and how the passes come to it. -/
inductive Comes (env : Env φ) (data : Value φ) :
    Visit φ → List Node → Visit φ → Section → List Node → Prop where
  | here {v : Visit φ} {nodes body : List Node} {head : Section} (mem : .block head body ∈ nodes) :
    Comes env data v nodes v head body
  | inside {v w x : Visit φ} {nodes body inner : List Node} {head around : Section}
      (mem : .block around inner ∈ nodes) (goes : Goes env data around v w)
      (comes : Comes env data w inner x head body) : Comes env data v nodes x head body

/-- Wherever the first pass finds a null for a section that is shown for want of something under the
name, over an absolute key, it changes nothing in the body but when nodes are rendered. -/
def SettledFor (env : Env φ) (data : Value φ) (name : String) (v : Visit φ) (nodes : List Node) :
    Prop :=
  ∀ place inScope waiting far overlays head body q,
    Comes env data v nodes (.both place inScope waiting far overlays) head body →
    head.inclusive = false → head.key.inContext = false → head.key.segments.getLast? = some name →
    mustWait head.binding inScope waiting = false →
    resolve env data head.binding place [] = .ok (some (.plain q .null)) →
    AllSteady env q true far overlays body

section Settled

variable {env : Env φ} {data : Value φ} {name : String} {v w : Visit φ} {nodes more : List Node}
  {head : Section} {body : List Node}

theorem SettledFor.mono (h : SettledFor env data name v more) (hm : nodes ⊆ more) :
    SettledFor env data name v nodes := by
  intro place inScope waiting far overlays head body q hc
  refine h place inScope waiting far overlays head body q ?_
  cases hc with
  | here mem => exact .here (hm mem)
  | inside mem goes comes => exact .inside (hm mem) goes comes

theorem SettledFor.inside (h : SettledFor env data name v [.block head body])
    (hg : Goes env data head v w) : SettledFor env data name w body :=
  fun place inScope waiting far overlays s inner q hc =>
    h place inScope waiting far overlays s inner q (.inside (List.mem_singleton.2 rfl) hg hc)

/-- What the passes come to is a part of the nodes. -/
theorem Comes.plain {x : Visit φ} (hc : Comes env data v nodes x head body)
    (hn : Node.AllPlain nodes) : Node.AllPlain [.block head body] := by
  induction hc with
  | here mem => exact ⟨Node.everyOf_iff.1 hn _ mem, trivial⟩
  | inside mem _ _ ih => exact ih (Node.everyOf_iff.1 hn _ mem).2

theorem Comes.wanting {x : Visit φ} (hc : Comes env data v nodes x head body)
    {good : List Node → Bool} (h : Node.allWanting name good nodes = true) :
    (Node.block head body).wanting name good = true := by
  induction hc with
  | here mem => exact Node.wanting_of_mem mem h
  | inside mem _ _ ih => exact ih (Node.wanting_block (Node.wanting_of_mem mem h)).2

theorem Comes.stands {x : Visit φ} (hd : data.isData = true)
    (hc : Comes env data v nodes x head body) (hn : Node.AllPlain nodes)
    (hv : v.Stands env data) : x.Stands env data := by
  induction hc with
  | here => exact hv
  | inside mem goes _ ih =>
    have haround : Node.AllPlain [_] := ⟨Node.everyOf_iff.1 hn _ mem, trivial⟩
    exact ih haround.1.2 (goes.stands hd (Node.AllPlain.formed haround).1.1 hv)

/-- From another place, the passes come to the same sections. -/
theorem Comes.moved {x : Visit φ} (hc : Comes env data v nodes x head body)
    (hn : Node.AllPlain nodes) (h : Visit.Moved env data nodes v w) :
    ∃ y, Comes env data w nodes y head body ∧ Visit.Moved env data [.block head body] x y := by
  induction hc generalizing w with
  | here mem => exact ⟨w, .here mem, h.of_mem mem⟩
  | inside mem goes comes ih =>
    have hblock := Node.everyOf_iff.1 hn _ mem
    obtain ⟨u, hu, hmoved⟩ := goes.moved hblock.1 (h.of_mem mem)
    obtain ⟨y, hy, hxy⟩ := ih hblock.2 hmoved
    exact ⟨y, .inside mem hu hy, hxy⟩

theorem SettledFor.moved (h : SettledFor env data name w nodes) (hn : Node.AllPlain nodes)
    (hvw : Visit.Moved env data nodes v w) : SettledFor env data name v nodes := by
  intro place inScope waiting far overlays head body q hc hi habs hlast hw hr
  obtain ⟨y, hy, hxy⟩ := hc.moved hn hvw
  cases hxy with
  | same => exact h _ _ _ _ _ head body q hy hi habs hlast hw hr
  | both hfixed hp hq =>
    have hplain : head.Plain := (hc.plain hn).1.1
    rw [resolve_moved (b := head.binding) hplain.links hplain.key habs hp hq] at hr
    exact h _ _ _ _ _ head body q hy hi habs hlast hw hr

end Settled

theorem Visit.Stands.far {env : Env φ} {data : Value φ} {v : Visit φ} (hv : v.Stands env data) :
    Stance env data v.far v.overlays := by
  cases v with
  | both => exact hv.2.stance
  | second => exact hv

/-- A section over a null that is shown for want of data is replaced by its body, staged there. -/
theorem fate_null {env : Env φ} {data : Value φ} {head : Section} (hs : head.Plain)
    (hi : head.inclusive = false) {place q : Place φ} {inScope : Bool} {waiting : List String}
    (hw : mustWait head.binding inScope waiting = false)
    (hr : resolve env data head.binding place [] = .ok (some (.plain q .null))) :
    fate env data place inScope waiting head = .ok (.flat q true) := by
  rw [fate_plain hs.passes hw hr (display_clean rfl head.inclusive head.raw), hi]
  rfl

/-- Bodies that can be read from anywhere are settled. -/
theorem settledFor_of_placeless {env : Env φ} {data : Value φ} (hd : data.isData = true)
    {name : String} {v : Visit φ} (hv : v.Stands env data) {nodes : List Node}
    (hn : Node.AllPlain nodes)
    (hp : Node.allWanting name (Node.allPlaceless false) nodes = true) :
    SettledFor env data name v nodes := by
  intro place inScope waiting far overlays head body q hc hi _ hlast hw hr
  obtain ⟨hs, hbody⟩ := (hc.plain hn).1
  have hplaceless := (Node.wanting_block (hc.wanting hp)).1 hi hlast
  have hflat : Goes env data head (.both place inScope waiting far overlays)
      (.both q true waiting far overlays) := .flat (fate_null hs hi hw hr)
  have hstands := hflat.stands hd (Node.AllPlain.formed (hc.plain hn)).1.1 (hc.stands hd hn hv)
  exact allSteady_placeless body true false hbody hplaceless hstands.staging.place
    hstands.staging.far

section Passes

variable {name : String} {env : Env φ} {d d' : Value φ}
  {inc inc' : Inclusion → Place φ → Except TemplateError String} {p : Place φ}
  (hoff : env.settings.errorOnMissingTags = false) (hname : '.' ∉ name.toList)
  (hflag : name ≠ displayKey)

/-- An absolute key that does not wait leads where the second pass is led by it. -/
theorem Staging.resolve_far {place far : Place φ} {overlays : List (Place φ)} {inScope : Bool}
    {waiting : List String} (hst : Staging env d place waiting far overlays) {b : Binding}
    (hl : b.links = []) (hk : b.key.Formed) (hc : b.key.inContext = false)
    (hw : mustWait b inScope waiting = false) :
    resolve env d b place [] = resolve env d b far overlays := by
  rw [hst.resolve_eq hl hk hw]
  cases inScope with
  | true => exact resolve_moved hl hk hc hst.near hst.far
  | false => rfl

theorem stage_tag_missing {tag : Tag} {inScope : Bool} {waiting : List String}
    (hoff : env.settings.errorOnMissingTags = false)
    (hw : mustWait tag.binding inScope waiting = false)
    (hr : resolve env d tag.binding p [] = .ok none) :
    stageNode env d inc p inScope waiting (.tag tag) =
      .ok (if tag.key.inContext && inScope then [] else [.tag tag]) := by
  rw [stageNode, hw, hr]
  simp only [Bool.false_eq_true, if_false, bind, Except.bind, missing_off hoff]
  split <;> rfl

theorem stage_tag_found {tag : Tag} {inScope : Bool} {waiting : List String}
    (hw : mustWait tag.binding inScope waiting = false) {q : Place φ} {v : Value φ}
    (hr : resolve env d tag.binding p [] = .ok (some (.plain q v))) :
    stageNode env d inc p inScope waiting (.tag tag) = .ok [.text (tagText env tag v)] := by
  rw [stageNode, hw, hr]
  rfl

variable {v v' : Visit φ}

include hoff hname in
theorem visitText_tag_padded {tag : Tag} (ht : tag.Plain) (hgaps : tag.key.NoGaps)
    (hv : v.Stands env d) (h : v.Padded name v') :
    visitText env d inc v [.tag tag] = visitText env d' inc' v' [.tag tag] := by
  cases h with
  | second hplace hover => exact levelText_tag_padded hoff hname ht hgaps hplace hover
  | @both place place' far far' overlays overlays' inScope waiting hplace hfar hover =>
    have hkept : levelText env d inc far overlays [.tag tag] =
        levelText env d' inc' far' overlays' [.tag tag] :=
      levelText_tag_padded hoff hname ht hgaps hfar hover
    rw [visitText, visitText, stagedText_singleton, stagedText_singleton]
    cases hw : mustWait tag.binding inScope waiting with
    | true =>
      have hwaits : ∀ (d : Value φ) inc place,
          stageNode env d inc place inScope waiting (.tag tag) = .ok [.tag tag] := by
        intro d inc place
        rw [stageNode, hw]
        rfl
      rw [stagedNodeText_of_ok (hwaits _ _ _), stagedNodeText_of_ok (hwaits _ _ _), hkept]
    | false =>
      obtain ⟨r, r', hr, hr', hanswers⟩ :=
        resolve_padded env d d' hname (b := tag.binding) ht.links ht.key hgaps hplace .nil
      cases hanswers with
      | neither =>
        rw [stagedNodeText_of_ok (stage_tag_missing hoff hw hr),
          stagedNodeText_of_ok (stage_tag_missing hoff hw hr')]
        split
        · rw [levelText_nil, levelText_nil]
        · exact hkept
      | both hpadded =>
        obtain ⟨q, q', hq, rfl, rfl⟩ := hpadded
        rw [stagedNodeText_of_ok (stage_tag_found hw hr),
          stagedNodeText_of_ok (stage_tag_found hw hr'), levelText_text, levelText_text,
          hq.bound.tagText]
      | extra he =>
        obtain ⟨⟨q, -, rfl⟩, -⟩ := he
        rw [stagedNodeText_of_ok (stage_tag_missing hoff hw hr),
          stagedNodeText_of_ok (stage_tag_found hw hr'), levelText_text, tagText_null]
        split
        · exact levelText_nil
        · rename_i hin
          have hc := absolute_of_not_mustWait (b := tag.binding) ht.links hw
            (Bool.eq_false_iff.2 hin)
          have hagain := hv.staging.resolve_far (b := tag.binding) ht.links ht.key hc hw
          rw [levelText_singleton, nodeText, settleNode, ← hagain, hr]
          · simp only [bind, Except.bind, missing_off hoff]
            rfl
          · simp

section Fates

variable {head : Section} {body : List Node} {place far : Place φ} {inScope : Bool}
  {waiting : List String} {overlays : List (Place φ)}

theorem fate_missing (hoff : env.settings.errorOnMissingTags = false)
    (hw : mustWait head.binding inScope waiting = false)
    (hr : resolve env d head.binding place [] = .ok none) :
    fate env d place inScope waiting head = .ok (
      if head.key.inContext && inScope then if head.inclusive then .hidden else .flat place inScope
      else .whole) := by
  rw [fate, hw, hr]
  simp only [Bool.false_eq_true, if_false, bind, Except.bind, missing_off hoff]
  split <;> rfl

theorem visitText_whole (hf : fate env d place inScope waiting head = .ok .whole) :
    visitText env d inc (.both place inScope waiting far overlays) [.block head body] =
      levelText env d inc far overlays [.block head body] := by
  rw [visitText, stagedText_singleton, stagedNodeText, stageNode_block, hf]
  rfl

theorem visitText_hidden (hf : fate env d place inScope waiting head = .ok .hidden) :
    visitText env d inc (.both place inScope waiting far overlays) [.block head body] =
      some "" := by
  rw [visitText, stagedText_singleton, stagedNodeText, stageNode_block, hf]
  exact (levelText_nil : levelText env d inc far overlays [] = _)

theorem visitText_flat {q : Place φ} {b : Bool}
    (hf : fate env d place inScope waiting head = .ok (.flat q b)) :
    visitText env d inc (.both place inScope waiting far overlays) [.block head body] =
      visitText env d inc (.both q b waiting far overlays) body := by
  rw [visitText, stagedText_singleton, stagedNodeText, stageNode_block, hf]
  rfl

theorem visitText_copied {b : Bool} {path : String} {staged : List Node}
    (hf : fate env d place inScope waiting head = .ok (.copied b path))
    (hst : stageNodes env d inc place b (path :: waiting) body = .ok staged) :
    visitText env d inc (.both place inScope waiting far overlays) [.block head body] =
      levelText env d inc far overlays [.block (head.anchored place.path) staged] := by
  rw [visitText, stagedText_singleton, stagedNodeText, stageNode_block, hf]
  simp only [bind, Except.bind, hst]
  rfl

end Fates

end Passes

end Treeless

end TextTemplate
