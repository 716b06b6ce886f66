import TextTemplate.Proofs.Context

/-!
Exclusive sections on missing keys. Such a section is left whole by the first pass, and its body is
rendered from where the second pass stands then. Written in place, the body would have been staged in
the scope around.
-/
namespace TextTemplate
variable {φ : Type}

theorem Section.Formed.of_plain {s : Section} (h : s.Plain) : s.Formed :=
  ⟨h.formed, fun hp => absurd (h.passes.symm.trans hp) Bool.false_ne_true⟩

theorem Node.AllPlain.formed {nodes : List Node} (h : Node.AllPlain nodes) :
    Node.AllFormed nodes :=
  Node.EveryOf.imp (fun _ ht => ht.formed) (fun _ hi => hi.elim) (fun _ hs => .of_plain hs) nodes h

namespace Treeless

variable {env : Env φ} {data : Value φ} {inc : Inclusion → Place φ → Except TemplateError String}

theorem Visit.Stands.staging {place far : Place φ} {inScope : Bool} {waiting : List String}
    {overlays : List (Place φ)}
    (h : (Visit.both place inScope waiting far overlays).Stands env data) :
    Staging env data place waiting far overlays where
  place := ⟨h.1.clean, by simp, (Place.Grounded.top data).within h.1.within, by simp⟩
  far := h.2.stance
  waiting key := by
    rw [Bool.eq_iff_iff, Place.covered, List.any_eq_true, List.any_eq_true]
    constructor
    · rintro ⟨path, hm, hcov⟩
      obtain ⟨o, ho, rfl⟩ := (h.2.paths path).1 hm
      exact ⟨o, ho, hcov⟩
    · rintro ⟨o, ho, hcov⟩
      exact ⟨o.path, (h.2.paths _).2 ⟨o, ho, rfl⟩, hcov⟩

section Missing

variable {head : Section} {body : List Node} {v : Visit φ}

/-- A section on a missing key is its body, rendered from where the second pass stands. -/
private theorem levelText_missing (hoff : env.settings.errorOnMissingTags = false) (hs : head.Plain)
    (hi : head.inclusive = false) {place : Place φ} {overlays : List (Place φ)}
    (hk : findPlace env.host (env.policy head.raw) place overlays head.key = .ok none) :
    levelText env data inc place overlays [.block head body] =
      levelText env data inc place overlays body := by
  have hr : resolve env data head.binding place overlays = .ok none := by
    rw [resolve_plain hs.links]
    change findPlace env.host (env.policy head.raw) place overlays head.key >>= _ = _
    rw [hk]
    rfl
  rw [levelText_singleton, nodeText, expand_missing hr, missing_off hoff, hi]
  rfl

/-- Either pass leaves the section to the second. -/
private theorem visitText_missing (hoff : env.settings.errorOnMissingTags = false) (hs : head.Plain)
    (hi : head.inclusive = false) (hc : head.key.inContext = false) (hv : v.Stands env data)
    (hk : findPlace env.host (env.policy head.raw) v.far v.overlays head.key = .ok none) :
    visitText env data inc v [.block head body] =
      levelText env data inc v.far v.overlays body := by
  cases v with
  | second place overlays => exact levelText_missing hoff hs hi hk
  | both place inScope waiting far overlays =>
    have hstage : stageNode env data inc place inScope waiting (.block head body) =
        .ok [.block head body] := by
      cases hw : mustWait head.binding inScope waiting with
      | true => exact stage_waits hw
      | false =>
        have hcov : Place.covered overlays head.key.text = false := by
          rw [mustWait_plain hs.links] at hw
          rw [← hv.staging.waiting]
          simpa [Section.binding, hc] using hw
        have hnear : findPlace env.host (env.policy head.raw) place [] head.key = .ok none :=
          (Place.Footing.findPlace_bare hv.staging.place.footing.place hs.key hc
            hv.staging.far.footing.place hcov).trans hk
        have hr : resolve env data head.binding place [] = .ok none := by
          rw [resolve_plain hs.links]
          change findPlace env.host (env.policy head.raw) place [] head.key >>= _ = _
          rw [hnear]
          rfl
        rw [stage_missing hw hr, hc]
        rfl
    rw [visitText, stagedText_singleton, stagedNodeText_of_ok hstage]
    exact levelText_missing hoff hs hi hk

private theorem stages_plain (hoff : env.settings.errorOnMissingTags = false) {nodes : List Node}
    (hn : Node.AllPlain nodes) {place : Place φ} (hc : place.Clean) (inScope : Bool)
    (waiting : List String) : Stages env data inc place inScope waiting nodes = true := by
  obtain ⟨staged, hst⟩ : ∃ staged, stageNodes env data inc place inScope waiting nodes = .ok staged :=
    stageNodes_ok nodes inScope waiting hc hn (.inl hoff)
  rw [Stages, hst]
  rfl

/-- Steady nodes come to what they come to from the scope around. -/
theorem visitText_steady (hoff : env.settings.errorOnMissingTags = false)
    (hn : Node.AllPlain body) {place far : Place φ} {inScope : Bool} {waiting : List String}
    {overlays : List (Place φ)}
    (hv : (Visit.both place inScope waiting far overlays).Stands env data)
    (hs : AllSteady env place inScope far overlays body) :
    visitText env data inc (.both place inScope waiting far overlays) body =
      levelText env data inc (if inScope then place else far) overlays body :=
  stagedText_eq body inScope hv.staging hn (.inl hoff) hs

/-- The first pass changes nothing but the time at which nodes are rendered, and they do not look
into the scope around unless the second pass stands there. -/
def Visit.Settled (env : Env φ) (nodes : List Node) : Visit φ → Prop
  | both place inScope _ far overlays => AllSteady env place inScope far overlays nodes ∧
      (inScope = false ∨ place = far ∨ Node.allClosed nodes = true)
  | second _ _ => True

/-- Settled nodes come to the same from where the second pass stands. -/
theorem visitText_settled (hoff : env.settings.errorOnMissingTags = false)
    (hn : Node.AllPlain body) (hv : v.Stands env data) (h : v.Settled env body) :
    visitText env data inc v body = levelText env data inc v.far v.overlays body := by
  cases v with
  | second => rfl
  | both place inScope waiting far overlays =>
    obtain ⟨hs, hsettled⟩ := h
    rw [visitText_steady hoff hn hv hs]
    cases inScope with
    | false => rfl
    | true =>
      rcases hsettled.resolve_left (by simp) with rfl | hclosed
      · rfl
      · exact levelText_closed body hn hclosed hv.staging.near hv.staging.far

end Missing

end Treeless

open Treeless in
/-- **An exclusive section on a missing key** is its body written in place, if the body comes to the
same there as from where the second pass stands, wherever the passes meet it. Settled nodes do. When
nothing around is repeated, no others do. -/
theorem Run.outcome_exclusive {env : Env φ} {data : Value φ} (hd : data.isData = true)
    (hoff : env.settings.errorOnMissingTags = false)
    (ht : ∀ name t, (name, t) ∈ env.templates → t.Formed) {C : Context} (hC : C.Formed)
    {head : Section} (hs : head.Plain) (hi : head.inclusive = false)
    (hc : head.key.inContext = false) {body : List Node} (hn : Node.AllPlain body)
    (hk : ∀ v, Meets env data C (.start data) v →
      findPlace env.host (env.policy head.raw) v.far v.overlays head.key = .ok none)
    (d : Delimiters) :
    let inc := Treeless.includeText env data maxPartialDepth
    let agrees := ∀ v, Meets env data C (.start data) v →
      visitText env data inc v body = levelText env data inc v.far v.overlays body
    let around := outcome env ⟨C.fill [.block head body], d⟩ data
    let written := outcome env ⟨C.fill body, d⟩ data
    (agrees → written.toOption = around.toOption) ∧
      ((∀ v, Meets env data C (.start data) v → v.Settled env body) → agrees) ∧
      (Single env data C (.start data) → ∀ text, around.toOption = some text →
        written.toOption = some text → agrees) := by
  intro inc agrees around written
  have htext : ∀ nodes, Node.AllFormed nodes →
      (outcome env ⟨nodes, d⟩ data).toOption = visitText env data inc (.start data) nodes := by
    intro nodes hnodes
    have hfun := Value.isFunction_of_isData hd
    have hinc := follows_includeText maxPartialDepth (.inr hd) hfun
      fun name t hm => (ht name t hm).sound hd
    rw [outcome_eq_treeless (.inr hd) hfun hinc (hnodes.sound hd)]
    rfl
  have hblock : Node.AllPlain [.block head body] := ⟨⟨hs, hn⟩, trivial⟩
  have haround : around.toOption = _ := htext _ (hC.fill hblock.formed)
  have hwritten : written.toOption = _ := htext _ (hC.fill hn.formed)
  have hstart : (Visit.start data).Stands env data := .start hd
  have hmissing : ∀ v, Meets env data C (.start data) v →
      visitText env data inc v [.block head body] = levelText env data inc v.far v.overlays body :=
    fun v hm => visitText_missing hoff hs hi hc (hm.stands hd hC hstart) (hk v hm)
  rw [haround, hwritten]
  refine ⟨fun h => ?_, fun h v hm => ?_, fun hsingle text hta htb v hm => ?_⟩
  · refine visitText_fill hd hC (fun place inScope waiting hclean => ?_) hstart fun v hm _ => ?_
    · rw [stages_plain hoff hn hclean, stages_plain hoff hblock hclean]
    · rw [hmissing v hm, h v hm]
  · exact visitText_settled hoff hn (hm.stands hd hC hstart) (h v hm)
  · rw [← hmissing v hm]
    exact visitText_of_fill hd hoff hC hstart hsingle htb hta hm

namespace Shadowed

def data : Value Empty := .record [("a", .record [("x", .string "near")]), ("x", .string "far")]

def env : Env Empty := ⟨⟨fun _ f _ _ => nomatch f⟩, .default, Number.specFormatter, []⟩

def head (path : String) (directive : Directive) : Section :=
  ⟨⟨"", some directive, .ofPath path false, [], none, false⟩, .ofPath path false, []⟩

/-- A section over `a` with an open place. -/
def inside : Context := .inside [] (head "a" .sectionInclude) (.hole [] []) []

def without : Section := head "zz" .sectionExclude

def x (inContext : Bool) : List Node := [.tag ⟨"", none, .ofPath "x" inContext, [], none, false⟩]

private theorem head_plain {path : String} {directive : Directive} (hp : path ≠ "")
    (hd : directive ≠ .passSection) : (head path directive).Plain :=
  ⟨Key.formed_ofPath fun _ => hp, rfl, by simpa [Section.passesText, head] using hd⟩

theorem inside_formed : inside.Formed :=
  ⟨⟨(head_plain (by decide) (by decide)).formed, by decide⟩, ⟨trivial, trivial⟩, trivial, trivial⟩

private theorem x_plain (inContext : Bool) : Node.AllPlain (x inContext) :=
  ⟨⟨Key.formed_ofPath fun _ => by decide, rfl⟩, trivial⟩

/-- The passes meet the open place once. -/
theorem meets {v : Treeless.Visit Empty} (h : Treeless.Meets env data inside (.start data) v) :
    v = .both ((Place.top data).child "a" (.record [("x", .string "near")])) true [] (.top data) [] := by
  have hflat : Treeless.fate env data (.top data) true [] (head "a" .sectionInclude) =
      .ok (.flat ((Place.top data).child "a" (.record [("x", .string "near")])) true) := rfl
  cases h with
  | inside hg hm =>
    cases hm
    cases hg with
    | whole left => cases left.symm.trans hflat
    | flat flattened =>
      cases flattened.symm.trans hflat
      rfl
    | copied copied => cases copied.symm.trans hflat

private theorem key_missing {v : Treeless.Visit Empty}
    (h : Treeless.Meets env data inside (.start data) v) :
    Treeless.findPlace env.host (env.policy without.raw) v.far v.overlays without.key =
      .ok none := by
  rw [meets h]
  rfl

end Shadowed

open Shadowed in
/-- An absolute key is read alike in the section and in its place. -/
theorem Run.outcome_exclusive_absolute :
    (outcome env ⟨inside.fill (x false), .default⟩ data).toOption =
      (outcome env ⟨inside.fill [.block without (x false)], .default⟩ data).toOption := by
  have h := Run.outcome_exclusive (rfl : data.isData = true) rfl (by simp [env]) inside_formed
    (head_plain (by decide) (by decide)) rfl rfl (x_plain false) (fun v hm => key_missing hm)
    .default
  refine h.1 (h.2.1 fun v hm => ?_)
  rw [meets hm]
  exact ⟨by simp [x, Treeless.AllSteady, Treeless.Steady], .inr (.inr rfl)⟩

open Shadowed in
/-- A key in context is not: the section reads the whole data instead of the scope around. -/
theorem Run.outcome_exclusive_inContext :
    (∀ v, Treeless.Meets env data inside (.start data) v →
      Treeless.findPlace env.host (env.policy without.raw) v.far v.overlays without.key =
        .ok none) ∧
      (outcome env ⟨inside.fill (x true), .default⟩ data).toOption = some "near" ∧
      (outcome env ⟨inside.fill [.block without (x true)], .default⟩ data).toOption =
        some "far" := by
  have hs : without.Plain := head_plain (by decide) (by decide)
  have hblock : Node.AllPlain (inside.fill [.block without (x true)]) :=
    ⟨⟨head_plain (by decide) (by decide), ⟨hs, x_plain true⟩, trivial⟩, trivial⟩
  have hbody : Node.AllPlain (inside.fill (x true)) :=
    ⟨⟨head_plain (by decide) (by decide), x_plain true⟩, trivial⟩
  refine ⟨fun v => key_missing, ?_, ?_⟩
  · rw [outcome_plain rfl hbody]
    decide +kernel
  · rw [outcome_plain rfl hblock]
    decide +kernel

end TextTemplate
