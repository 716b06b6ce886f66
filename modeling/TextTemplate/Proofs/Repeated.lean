import TextTemplate.Proofs.Failure
import TextTemplate.Proofs.Lookups

/-!
Bodies that are repeated over a field of the whole data. Keys at or under the field have to wait for
the items, and are read from them, so neither pass looks into the field.
-/
namespace TextTemplate
variable {φ : Type}

namespace Treeless

open Place

/-- A place below another field of the whole data than `k`. -/
structure Rooted (d : Value φ) (k : String) (p : Place φ) : Prop where
  gaps : ∀ s ∈ splitPath p.path, s ≠ ""
  field : ∃ name w rest, d.firstField "" (splitPath p.path) = some (name, w, rest) ∧ name ≠ k ∧
    w.isData = true

/-- A key that is not looked up in the field `k`, unless below it or under an overlay for it. -/
structure Fits (d : Value φ) (k : String) (key : Key) : Prop where
  formed : key.Formed
  gaps : key.NoGaps
  spares : key.inContext = true ∨ pathCovers k key.text = true ∨ d.Spares k key.segments

section Repeated

variable {k : String} {d d' : Value φ} {env : Env φ} {p p' q : Place φ} {inScope : Bool}
  {waiting : List String}

theorem Rooted.spares (h : Rooted d k p) (more : List String) :
    d.Spares k (splitPath p.path ++ more) := by
  obtain ⟨name, w, rest, hf, hne, hw⟩ := h.field
  intro name' w' rest' hf'
  rw [Value.firstField_append hf] at hf'
  cases hf'
  exact ⟨hne, hw⟩

theorem Rooted.above (h : Rooted d k p) (ht : Twin d d' p p') : p.above ≠ [] := by
  intro hp
  obtain ⟨rfl, -⟩ := ht.top_of hp
  obtain ⟨name, w, rest, hf, -⟩ := h.field
  cases hf

theorem Rooted.joined (h : Rooted d k p) (key : String) : joinPath p.path key ≠ "" := by
  obtain ⟨name, w, rest, hf, -⟩ := h.field
  intro hj
  have hsplit := splitPath_joinPath p.path key
  rw [hj] at hsplit
  rw [(List.append_eq_nil_iff.1 hsplit.symm).1] at hf
  cases hf

/-- A key that fits, seen from the whole data instead of from a place of another field. -/
theorem Fits.anchored {key : Key} (hk : Fits d k key) (h : Rooted d k p) :
    Fits d k (key.anchored p.path) := by
  cases hc : key.inContext with
  | false =>
    have : key.anchored p.path = key := by simp [Key.anchored, hc]
    rw [this]
    exact hk
  | true =>
    have hanchored : key.anchored p.path = .ofPath (joinPath p.path key.text) false := by
      simp [Key.anchored, hc, h.joined key.text]
    have hsegments : (key.anchored p.path).segments = splitPath p.path ++ key.segments := by
      rw [hanchored, hk.formed.segments]
      exact splitPath_joinPath _ _
    refine ⟨hk.formed.anchored p.path, fun s hs => ?_, .inr (.inr ?_)⟩
    · rw [hsegments] at hs
      exact (List.mem_append.1 hs).elim (h.gaps s) (hk.gaps s)
    · rw [hsegments]
      exact h.spares key.segments

/-- Where the first pass stands while a section over the field `k` is waited for. -/
structure Outside (env : Env φ) (d d' : Value φ) (k : String) (p : Place φ) (inScope : Bool)
    (waiting : List String) : Prop where
  twin : ∃ p', Twin d d' p p'
  footing : Footing env.host env.settings.errorOnFuncFailure d p []
  waits : k ∈ waiting
  stands : p = .top d ∧ inScope = false ∨ Rooted d k p

namespace Outside

variable {b : Binding}

theorem rooted (h : Outside env d d' k p true waiting) : Rooted d k p :=
  h.stands.resolve_left (by simp)

/-- An absolute key that need not wait is not looked up in the field. -/
theorem absolute (h : Outside env d d' k p inScope waiting) (hl : b.links = [])
    (hk : Fits d k b.key) (hw : mustWait b inScope waiting = false) (hc : b.key.inContext = false) :
    d.Spares k b.key.segments := by
  refine (hk.spares.resolve_left (by simp [hc])).resolve_left fun hcov => ?_
  rw [mustWait_plain hl, hc] at hw
  exact List.any_eq_false.1 hw k h.waits hcov

theorem spares (h : Outside env d d' k p inScope waiting) (hl : b.links = []) (hk : Fits d k b.key)
    (hw : mustWait b inScope waiting = false) : Spares d k p [] b.key := by
  intro htop
  cases hc : b.key.inContext with
  | true =>
    obtain rfl : inScope = true := by simpa [mustWait_plain hl, hc] using hw
    obtain ⟨p', hp⟩ := h.twin
    have hstart : start p [] b.key = p := by simp [start, hc]
    exact absurd (hstart ▸ htop) (h.rooted.above hp)
  | false => exact h.absolute hl hk hw hc

/-- What the first pass finds lies below another field. -/
theorem found (h : Outside env d d' k p inScope waiting) (hR : Roots k d d') (hl : b.links = [])
    (hk : Fits d k b.key) (hw : mustWait b inScope waiting = false)
    (hf : findPlace env.host (env.policy b.raw) p [] b.key = .ok (some q)) :
    Outside env d d' k q true waiting := by
  have hspares := h.spares hl hk hw
  obtain ⟨p', hp⟩ := h.twin
  have htwin : ∃ q', Twin d d' q q' := by
    obtain ⟨r, r', hr, -, hrel⟩ := findPlace_twin env.host (env.policy b.raw) hR hp .nil hspares
    rw [hr] at hf
    cases hf
    cases hrel with
    | some hq => exact ⟨_, hq⟩
  refine ⟨htwin, h.footing.found hk.formed hf, h.waits, .inr ?_⟩
  have hdot : Dotless b.key.segments := hk.formed.segments ▸ dotless_splitPath b.key.text
  cases hc : b.key.inContext with
  | true =>
    obtain rfl : inScope = true := by simpa [mustWait_plain hl, hc] using hw
    obtain ⟨rest, hwalk⟩ := walk_of_findPlace hf
    have hstart : start p [] b.key = p := by simp [start, hc]
    simp only [hstart, hc, if_true, List.drop_zero] at hwalk
    have hpath := walk_gapless .none hdot hk.gaps hwalk
    rw [List.nil_append] at hpath
    obtain ⟨name, w, more, hfield, hne, hdata⟩ := h.rooted.field
    refine ⟨fun s hs => ?_, name, w, more ++ b.key.segments, ?_, hne, hdata⟩
    · rw [hpath] at hs
      exact (List.mem_append.1 hs).elim (h.rooted.gaps s) (hk.gaps s)
    · rw [hpath]
      exact Value.firstField_append hfield
  | false =>
    have htop : findPlace env.host (env.policy b.raw) (top d) [] b.key = .ok (some q) := by
      rw [findPlace_nil] at hf ⊢
      exact (h.footing.place.search b.key hk.formed hc rfl b.raw).symm.trans hf
    obtain ⟨rest, hwalk⟩ := walk_of_findPlace htop
    have hstart : start (top d) [] b.key = top d := by simp only [start, hc]; rfl
    have hdepth : pathDepth (top d).path = 0 := rfl
    simp only [hstart, hc, hdepth, Bool.false_eq_true, if_false, List.drop_zero] at hwalk
    have hpath : splitPath q.path = b.key.segments := walk_gapless .none hdot hk.gaps hwalk
    have hne : b.key.segments ≠ [] := by
      rw [hk.formed.segments]
      exact fun hnil => hk.formed.text hc (splitPath_eq_nil.1 hnil)
    obtain ⟨name, w, more, hfield⟩ := walk_top_field hR.isFunction.1 hR.isArray.1 hdot hk.gaps
      (.inr hne) hwalk
    refine ⟨fun s hs => hk.gaps s (hpath ▸ hs), name, w, more, hpath ▸ hfield, ?_⟩
    exact h.absolute hl hk hw hc name w more hfield

/-- The places of flattened sections. -/
theorem flat (h : Outside env d d' k p inScope waiting) (hR : Roots k d d') {head : Section}
    (hs : head.Plain) (hk : Fits d k head.key) {b : Bool}
    (hf : fate env d p inScope waiting head = .ok (.flat q b)) : Outside env d d' k q b waiting := by
  rcases fate_inv hs hf with hflat | hflat | hflat | ⟨hw, x, hfind, hflat⟩
  · cases hflat
  · cases hflat
  · cases hflat
    exact h
  · obtain hflat | hflat := hflat
    · cases hflat
      exact h.found hR (b := head.binding) hs.links hk hw hfind
    · cases hflat

/-- The places of copied sections, with their heads. -/
theorem copied (h : Outside env d d' k p inScope waiting) {head : Section} (hs : head.Plain)
    (hk : Fits d k head.key) {b : Bool} {path : String}
    (hf : fate env d p inScope waiting head = .ok (.copied b path)) :
    Outside env d d' k p b (path :: waiting) ∧ (head.anchored p.path).Plain ∧
      Fits d k (head.anchored p.path).key := by
  rcases fate_inv hs hf with hcopied | hcopied | hcopied | ⟨hw, x, hfind, hcopied⟩
  · cases hcopied
  · cases hcopied
  · cases hcopied
  · obtain rfl : b = false := by
      rcases hcopied with hcopied | hcopied
      · cases hcopied
      · cases hcopied
        rfl
    refine ⟨⟨h.twin, h.footing, List.mem_cons_of_mem _ h.waits, h.stands.imp_left fun hp =>
      ⟨hp.1, rfl⟩⟩, hs.anchored p.path, ?_⟩
    rcases h.stands with ⟨-, rfl⟩ | hrooted
    · have hc : head.key.inContext = false := by
        rw [mustWait_plain (b := head.binding) hs.links] at hw
        exact (by simpa [Section.binding] using hw : _ ∧ _).1
      have : (head.anchored p.path).key = head.key := by
        simp [Section.anchored, Key.anchored, hc]
      rw [this]
      exact hk
    · exact hk.anchored hrooted

end Outside

/-- Nodes without links, whose keys fit. -/
abbrev AllFit (d : Value φ) (k : String) : List Node → Prop :=
  Node.EveryOf (fun t => t.Plain ∧ Fits d k t.key) (fun _ => False)
    fun s => s.Plain ∧ Fits d k s.key

/-- The first pass leaves nodes whose keys fit. -/
theorem Outside.left (h : Outside env d d' k p inScope waiting) (hR : Roots k d d')
    {inc : Inclusion → Place φ → Except TemplateError String} {nodes staged : List Node}
    (hn : AllFit d k nodes) (hst : stageNodes env d inc p inScope waiting nodes = .ok staged) :
    AllFit d k staged :=
  stageNodes_every (P := Outside env d d' k) (fun _ hs => hs)
    (fun hp hs hf => hp.flat hR hs.1 hs.2 hf) (fun hp hs hf => hp.copied hs.1 hs.2 hf) nodes h hn
    staged hst

/-- The first pass does not look into the field. -/
theorem Outside.looks (hR : Roots k d d') {nodes : List Node} {key : Key}
    (hl : StageLooks env d p inScope waiting nodes q key)
    (h : Outside env d d' k p inScope waiting) (hn : AllFit d k nodes) : Spares d k q [] key := by
  induction hl with
  | @tag place inScope waiting nodes t mem ready =>
    obtain ⟨ht, hk⟩ := Node.everyOf_iff.1 hn _ mem
    exact h.spares (b := t.binding) ht.links hk ready
  | @head place inScope waiting nodes body s mem ready =>
    obtain ⟨⟨hs, hk⟩, -⟩ := Node.everyOf_iff.1 hn _ mem
    exact h.spares (b := s.binding) hs.links hk ready
  | @flag place p inScope waiting nodes body s mem ready found =>
    obtain ⟨⟨hs, hk⟩, -⟩ := Node.everyOf_iff.1 hn _ mem
    have hp := h.found hR (b := s.binding) hs.links hk ready found
    obtain ⟨p', ht⟩ := hp.twin
    exact fun htop => absurd htop (hp.rooted.above ht)
  | flat mem flattened looks ih =>
    obtain ⟨⟨hs, hk⟩, hbody⟩ := Node.everyOf_iff.1 hn _ mem
    exact ih (h.flat hR hs hk flattened) hbody
  | copied mem copied looks ih =>
    obtain ⟨⟨hs, hk⟩, hbody⟩ := Node.everyOf_iff.1 hn _ mem
    exact ih (h.copied hs hk copied).1 hbody

/-- Where the second pass stands in a section that is repeated over the field `k`. -/
structure Repeating (d d' : Value φ) (k : String) (p : Place φ) (overlays : List (Place φ)) :
    Prop where
  twin : ∃ p', Twin d d' p p'
  twins : ∃ overlays', List.Forall₂ (Twin d d') overlays overlays'
  below : p.above ≠ []
  overlaysBelow : ∀ o ∈ overlays, o.above ≠ []
  covered : ∃ o ∈ overlays, o.path = k

namespace Repeating

variable {overlays os : List (Place φ)} {key : Key}

theorem spares (h : Repeating d d' k p overlays) (hk : Fits d k key) : Spares d k p overlays key := by
  intro htop
  cases hc : key.inContext with
  | true =>
    have hstart : start p overlays key = p := by simp [start, hc]
    exact absurd (hstart ▸ htop) h.below
  | false =>
    cases ho : overlays.find? fun o => pathCovers o.path key.text with
    | some o =>
      have hstart : start p overlays key = o := by simp [start, hc, ho]
      exact absurd (hstart ▸ htop) (h.overlaysBelow o (List.mem_of_find?_eq_some ho))
    | none =>
      obtain ⟨o, hm, rfl⟩ := h.covered
      have hcov : pathCovers o.path key.text = false := by simpa using List.find?_eq_none.1 ho o hm
      exact (hk.spares.resolve_left (by simp [hc])).resolve_left (by simp [hcov])

/-- What the second pass finds is not the whole data. -/
theorem found (h : Repeating d d' k p overlays) (hR : Roots k d d') (hk : Fits d k key)
    {policy : FailurePolicy} (hf : findPlace env.host policy p overlays key = .ok (some q)) :
    Repeating d d' k q overlays := by
  obtain ⟨p', hp⟩ := h.twin
  obtain ⟨overlays', ho⟩ := h.twins
  obtain ⟨r, r', hr, -, hrel⟩ := findPlace_twin env.host policy hR hp ho (h.spares hk)
  cases hf.symm.trans hr
  cases hrel with
  | @some q q' hq =>
    refine ⟨⟨q', hq⟩, h.twins, fun hqtop => ?_, h.overlaysBelow, h.covered⟩
    obtain ⟨rest, hwalk⟩ := walk_of_findPlace hf
    have hstart : Twin d d' (start p overlays key) (start p' overlays' key) := start_twin hp ho
    by_cases htop : (start p overlays key).above = []
    · have hc : key.inContext = false := by
        by_contra hc
        have : start p overlays key = p := by simp [start, hc]
        exact h.below (this ▸ htop)
      have hdot : Dotless key.segments := hk.formed.segments ▸ dotless_splitPath key.text
      rw [(hstart.top_of htop).1] at hwalk
      have hdepth : pathDepth (top d).path = 0 := rfl
      simp only [hc, hdepth, Bool.false_eq_true, if_false, List.drop_zero] at hwalk
      have hpath : splitPath q.path = key.segments := walk_gapless .none hdot hk.gaps hwalk
      rw [(hq.top_of hqtop).1, hk.formed.segments] at hpath
      exact hk.formed.text hc (splitPath_eq_nil.1 hpath.symm)
    · obtain ⟨r, r', hr, -, hrel⟩ := hstart.walk env.host policy htop "" (key.segments.drop
        (if key.inContext then 0 else pathDepth (start p overlays key).path))
      cases hwalk.symm.trans hr
      cases hrel with
      | some hx => exact hx.2 hqtop

theorem enter (h : Repeating d d' k p overlays) (hR : Roots k d d') {head : Section}
    (hs : head.Plain) (hk : Fits d k head.key) (he : Enters env d head p overlays q os) :
    Repeating d d' k q os := by
  have hfound : ∀ {r}, resolve env d head.binding p overlays = .ok (some r) →
      ∃ x, Repeating d d' k x overlays ∧ r = .plain x x.bound := fun hr => by
    obtain ⟨x, v, hx, rfl⟩ := resolve_plain_found (b := head.binding) hs.links hr
    obtain ⟨p', hp⟩ := h.twin
    obtain ⟨overlays', ho⟩ := h.twins
    rcases resolve_twin hR (b := head.binding) hs.links hp ho (h.spares hk) with
      ⟨hr', -⟩ | ⟨y, y', -, hy, hr', -⟩
    · cases hr.symm.trans hr'
    · cases hr.symm.trans hr'
      exact ⟨x, h.found hR hk hy, rfl⟩
  cases he with
  | missing => exact h
  | passed => exact h
  | empty => exact h
  | @item r v w i resolved plain repeating inclusive lt reads =>
    obtain ⟨x, hx, rfl⟩ := hfound resolved
    obtain ⟨x', ht⟩ := hx.twin
    obtain ⟨overlays', ho⟩ := hx.twins
    rw [Resolution.plain_inner] at reads ⊢
    cases (ht.read env.host (env.policy head.raw) hR).1.symm.trans reads
    obtain ⟨hbelow, hitem⟩ := ht.item hR repeating i
    refine ⟨⟨_, hitem⟩, ⟨_, .cons hitem ho⟩, hbelow, fun o hm => ?_, ?_⟩
    · rcases List.mem_cons.1 hm with rfl | hm
      · exact hbelow
      · exact hx.overlaysBelow o hm
    · obtain ⟨o, hm, hpath⟩ := hx.covered
      exact ⟨o, List.mem_cons_of_mem _ hm, hpath⟩
  | plain resolved plain single shown =>
    obtain ⟨x, hx, rfl⟩ := hfound resolved
    have hdynamic : (Resolution.plain x x.bound).isDynamic = false := single
    rw [Resolution.plain_inner, hdynamic, if_neg (by simp)]
    exact hx

/-- The second pass does not look into the field. -/
theorem looks (hR : Roots k d d') {nodes : List Node} {key : Key}
    (hl : LevelLooks env d p overlays nodes q os key) (h : Repeating d d' k p overlays)
    (hn : AllFit d k nodes) : Spares d k q os key := by
  induction hl with
  | @tag place overlays nodes t mem =>
    obtain ⟨-, hk⟩ := Node.everyOf_iff.1 hn _ mem
    exact h.spares hk
  | @head place overlays nodes body s mem =>
    obtain ⟨⟨-, hk⟩, -⟩ := Node.everyOf_iff.1 hn _ mem
    exact h.spares hk
  | @flag place p overlays nodes body s mem found =>
    obtain ⟨⟨-, hk⟩, -⟩ := Node.everyOf_iff.1 hn _ mem
    exact fun htop => absurd htop (h.found hR hk found).below
  | inside mem enters looks ih =>
    obtain ⟨⟨hs, hk⟩, hbody⟩ := Node.everyOf_iff.1 hn _ mem
    exact ih (h.enter hR hs hk enters) hbody

end Repeating

end Repeated

end Treeless

end TextTemplate
