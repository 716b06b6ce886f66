import TextTemplate.Proofs.Absent.Visits

/-!
Absent data and null. Tags show nothing of either, and sections are hidden or shown alike. But a
section shown for want of data has its body read in the scope around when the key is missing, and in
the null itself when that is there. So it only makes no difference which, when the body does not
look into the scope around it. And when the key is absolute the first pass leaves the section as it
is, while it stages the body over the null: this has to come to the same.
-/
namespace TextTemplate
variable {φ : Type}

namespace Treeless

section Passes

variable {name : String} {env : Env φ} {d d' : Value φ}
  {inc inc' : Inclusion → Place φ → Except TemplateError String} {p : Place φ}
  (hoff : env.settings.errorOnMissingTags = false) (hname : '.' ∉ name.toList)
  (hflag : name ≠ displayKey)

variable {v v' : Visit φ}

/-- What the first pass makes of a section over the two data, unless its key leads to the null. -/
inductive FatePadded (name : String) (head : Section) : Fate φ → Fate φ → Prop where
  | whole : FatePadded name head .whole .whole
  | hidden : FatePadded name head .hidden .hidden
  | flat {q q' : Place φ} (h : q.Padded name q') (inScope : Bool) :
    FatePadded name head (.flat q inScope) (.flat q' inScope)
  | copied (inclusive : head.inclusive = true) (path : String) :
    FatePadded name head (.copied false path) (.copied false path)

section Blocks

variable {head : Section} {body : List Node} {place place' far far' : Place φ} {inScope : Bool}
  {waiting : List String} {overlays overlays' : List (Place φ)}

include hoff in
private theorem fate_missing_padded (hw : mustWait head.binding inScope waiting = false)
    (hr : resolve env d head.binding place [] = .ok none)
    (hr' : resolve env d' head.binding place' [] = .ok none) (hplace : place.Padded name place') :
    ∃ f f', fate env d place inScope waiting head = .ok f ∧
      fate env d' place' inScope waiting head = .ok f' ∧ FatePadded name head f f' := by
  refine ⟨_, _, fate_missing hoff hw hr, fate_missing hoff hw hr', ?_⟩
  cases head.key.inContext && inScope with
  | false => exact .whole
  | true =>
    cases head.inclusive with
    | true => exact .hidden
    | false => exact .flat hplace inScope

include hflag in
private theorem fate_found_padded (hs : head.Plain)
    (hw : mustWait head.binding inScope waiting = false) {q q' : Place φ}
    (hq : q.Padded name q')
    (hr : resolve env d head.binding place [] = .ok (some (.plain q q.bound)))
    (hr' : resolve env d' head.binding place' [] = .ok (some (.plain q' q'.bound)))
    (hplace : place.Padded name place') :
    ∃ f f', fate env d place inScope waiting head = .ok f ∧
      fate env d' place' inScope waiting head = .ok f' ∧ FatePadded name head f f' := by
  refine ⟨_, _, fate_plain hs.passes hw hr (display_clean hq.data.1 head.inclusive head.raw),
    fate_plain hs.passes hw hr' (display_clean hq.data.2 head.inclusive head.raw), ?_⟩
  rw [hq.bound.isArray, hq.bound.size, hq.bound.shows env hflag, hq.path]
  cases q.bound.isArray with
  | false =>
    cases shows env head.inclusive q.bound with
    | true => exact .flat hq true
    | false => exact .hidden
  | true =>
    by_cases hsize : q.bound.size = 0
    · cases hi : head.inclusive with
      | true => simpa [hsize] using .hidden
      | false => simpa [hsize] using .flat hplace inScope
    · cases hi : head.inclusive with
      | true => simpa [hsize] using .copied hi q.path
      | false => simpa [hsize] using .hidden

include hoff hname hflag in
/-- Either the fates are alike, or the key leads to the null and is missing without it. -/
private theorem fate_padded (hs : head.Plain) (hgaps : head.key.NoGaps)
    (hplace : place.Padded name place') :
    (∃ f f', fate env d place inScope waiting head = .ok f ∧
      fate env d' place' inScope waiting head = .ok f' ∧ FatePadded name head f f') ∨
      mustWait head.binding inScope waiting = false ∧ head.key.segments.getLast? = some name ∧
        resolve env d head.binding place [] = .ok none ∧
        ∃ q, resolve env d' head.binding place' [] = .ok (some (.plain q .null)) := by
  cases hw : mustWait head.binding inScope waiting with
  | true => exact .inl ⟨_, _, fate_waits hw, fate_waits hw, .whole⟩
  | false =>
    obtain ⟨r, r', hr, hr', hanswers⟩ :=
      resolve_padded env d d' hname (b := head.binding) hs.links hs.key hgaps hplace .nil
    cases hanswers with
    | neither => exact .inl (fate_missing_padded hoff hw hr hr' hplace)
    | both hpadded =>
      obtain ⟨q, q', hq, rfl, rfl⟩ := hpadded
      exact .inl (fate_found_padded hflag hs hw hq hr hr' hplace)
    | extra he =>
      obtain ⟨⟨q, -, rfl⟩, hlast⟩ := he
      exact .inr ⟨rfl, hlast, hr, q, hr'⟩

variable (hs : head.Plain) (hd' : d'.isData = true)
  (hn : Node.AllGapless body) (hb : Node.allWanting name Node.allClosed body = true)

include hoff hname hflag hs hn in
/-- A copy of a section in the second pass. -/
private theorem visitText_copied_padded (hgaps : head.key.NoGaps)
    (hbody : ∀ w w' : Visit φ,
      Goes env d head (.both place inScope waiting far overlays) w →
      Goes env d' head (.both place' inScope waiting far' overlays') w' → w.Padded name w' →
      visitText env d inc w body = visitText env d' inc' w' body)
    (hi : head.inclusive = true) (hc : place.Clean) (hc' : place'.Clean)
    (hplace : place.Padded name place') (hfar : far.Padded name far')
    (hover : List.Forall₂ (Place.Padded name) overlays overlays') {path : String}
    (hf : fate env d place inScope waiting head = .ok (.copied false path))
    (hf' : fate env d' place' inScope waiting head = .ok (.copied false path)) :
    visitText env d inc (.both place inScope waiting far overlays) [.block head body] =
      visitText env d' inc' (.both place' inScope waiting far' overlays') [.block head body] := by
  obtain ⟨staged, hst⟩ : ∃ staged,
      stageNodes env d inc place false (path :: waiting) body = .ok staged :=
    stageNodes_ok body false (path :: waiting) hc hn.plain (.inl hoff)
  obtain ⟨staged', hst'⟩ : ∃ staged,
      stageNodes env d' inc' place' false (path :: waiting) body = .ok staged :=
    stageNodes_ok body false (path :: waiting) hc' hn.plain (.inl hoff)
  rw [visitText_copied hf hst, visitText_copied hf' hst', hplace.path]
  refine levelText_block_padded hoff hname hflag (hs.anchored place.path) hfar hover
    (fun q xs q' xs' he he' hq hxs => ?_) (hgaps.anchored hs.key hplace.spot.gapless)
    fun hexclusive => ?_
  · have htext := hbody _ _ (.copied hf he) (.copied hf' (hplace.path.symm ▸ he'))
      (.both false (path :: waiting) hplace hq hxs)
    rwa [visitText, visitText, stagedText_of_ok hst, stagedText_of_ok hst'] at htext
  · cases hi.symm.trans hexclusive

include hoff hname hflag hs hn in
/-- A section that the first pass makes alike over the two data. -/
private theorem visitText_alike_padded (hgaps : head.key.NoGaps)
    (hbody : ∀ w w' : Visit φ,
      Goes env d head (.both place inScope waiting far overlays) w →
      Goes env d' head (.both place' inScope waiting far' overlays') w' → w.Padded name w' →
      visitText env d inc w body = visitText env d' inc' w' body)
    (hkept : levelText env d inc far overlays [.block head body] =
      levelText env d' inc' far' overlays' [.block head body])
    (hc : place.Clean) (hc' : place'.Clean) (hplace : place.Padded name place')
    (hfar : far.Padded name far') (hover : List.Forall₂ (Place.Padded name) overlays overlays')
    {f f' : Fate φ} (hf : fate env d place inScope waiting head = .ok f)
    (hf' : fate env d' place' inScope waiting head = .ok f') (hff : FatePadded name head f f') :
    visitText env d inc (.both place inScope waiting far overlays) [.block head body] =
      visitText env d' inc' (.both place' inScope waiting far' overlays') [.block head body] := by
  cases hff with
  | whole => rw [visitText_whole hf, visitText_whole hf', hkept]
  | hidden => rw [visitText_hidden hf, visitText_hidden hf']
  | flat hq b =>
    rw [visitText_flat hf, visitText_flat hf']
    exact hbody _ _ (.flat hf) (.flat hf') (.both b waiting hq hfar hover)
  | copied hincl path =>
    exact visitText_copied_padded hoff hname hflag hs hn hgaps hbody hincl hc hc' hplace hfar hover
      hf hf'

include hoff hname hflag hs hd' hn hb in
/-- A section over a key that is missing in one of the data, and leads to the null in the other. -/
private theorem visitText_null_padded
    (hv : (Visit.both place inScope waiting far overlays).Stands env d)
    (hv' : (Visit.both place' inScope waiting far' overlays').Stands env d')
    (hfar : far.Padded name far') (hover : List.Forall₂ (Place.Padded name) overlays overlays')
    (hw : mustWait head.binding inScope waiting = false)
    (hr : resolve env d head.binding place [] = .ok none) {q : Place φ}
    (hr' : resolve env d' head.binding place' [] = .ok (some (.plain q .null)))
    (hclosed : head.inclusive = false → Node.allClosed body = true)
    (hsettled : head.inclusive = false → head.key.inContext = false →
      AllSteady env q true far' overlays' body)
    (hbody : head.inclusive = false → inScope = true → Goes env d' head
        (.both place' inScope waiting far' overlays') (.both q true waiting far' overlays') →
      visitText env d inc (.both place inScope waiting far overlays) body =
        visitText env d' inc' (.both place' inScope waiting far' overlays') body) :
    visitText env d inc (.both place inScope waiting far overlays) [.block head body] =
      visitText env d' inc' (.both place' inScope waiting far' overlays') [.block head body] := by
  have hfate := fate_missing hoff hw hr
  cases hi : head.inclusive with
  | true =>
    -- hidden for the null; what is missing is hidden too, at once or by the second pass
    have hfate' := fate_plain hs.passes hw hr' (display_clean rfl head.inclusive head.raw)
    rw [hi] at hfate hfate'
    rw [visitText_hidden hfate']
    cases hin : head.key.inContext && inScope with
    | true =>
      rw [hin] at hfate
      exact visitText_hidden hfate
    | false =>
      rw [hin] at hfate
      have hc := absolute_of_not_mustWait (b := head.binding) hs.links hw hin
      have hagain := hv.staging.resolve_far (b := head.binding) hs.links hs.key hc hw
      rw [visitText_whole hfate, levelText_singleton, nodeText, expand_missing (hagain ▸ hr),
        missing_off hoff, hi]
      rfl
  | false =>
    have hfate' := fate_null hs hi hw hr'
    have hplain : Node.AllPlain [.block head body] := ⟨⟨hs, hn.plain⟩, trivial⟩
    have hformed : head.Formed := (Node.AllPlain.formed hplain).1.1
    have hstands := (Goes.flat hfate').stands hd' hformed hv'
    rw [hi] at hfate
    rw [visitText_flat hfate']
    cases hin : head.key.inContext && inScope with
    | true =>
      -- staged in the scope around or in the null, where the body looks nothing up in context
      obtain rfl : inScope = true := (Bool.and_eq_true _ _ ▸ hin).2
      rw [hin] at hfate
      rw [visitText_flat hfate, hbody hi rfl (.flat hfate')]
      exact visitText_moved hn.plain (.inr (hclosed hi)) hv'.staging.place hstands.staging.place
    | false =>
      -- left to the second pass, or staged in the null
      rw [hin] at hfate
      have hc := absolute_of_not_mustWait (b := head.binding) hs.links hw hin
      have hagain := hv.staging.resolve_far (b := head.binding) hs.links hs.key hc hw
      calc visitText env d inc (.both place inScope waiting far overlays) [.block head body]
        _ = levelText env d inc far overlays body := by
          rw [visitText_whole hfate, levelText_singleton, nodeText, expand_missing (hagain ▸ hr),
            missing_off hoff, hi]
          rfl
        _ = levelText env d' inc' far' overlays' body :=
          levelText_padded hoff hname hflag body hn hb hv.far hv'.far hfar hover
        _ = levelText env d' inc' q overlays' body :=
          levelText_closed body hn.plain (hclosed hi) hv'.far hstands.staging.near
        _ = visitText env d' inc' (.both q true waiting far' overlays') body :=
          (visitText_steady hoff hn.plain hstands (hsettled hi hc)).symm

end Blocks

mutual

private theorem visitText_node_padded (hoff : env.settings.errorOnMissingTags = false)
    (hname : '.' ∉ name.toList) (hflag : name ≠ displayKey) (hd : d.isData = true)
    (hd' : d'.isData = true) : (node : Node) → ∀ v v' : Visit φ, Node.AllGapless [node] →
    node.wanting name Node.allClosed = true → SettledFor env d' name v' [node] →
    v.Stands env d → v'.Stands env d' → v.Padded name v' →
    visitText env d inc v [node] = visitText env d' inc' v' [node]
  | .text text, v, v', _, _, _, _, _, h => by
    have htext : ∀ (d : Value φ) inc v, visitText env d inc v [.text text] = some text := by
      intro d inc v
      cases v with
      | second => exact levelText_text text
      | both =>
        rw [visitText, stagedText_singleton, stagedNodeText, stageNode, pure_bind]
        exact levelText_text text
    rw [htext, htext]
  | .inclusion _, _, _, hn, _, _, _, _, _ => hn.1.elim
  | .tag tag, v, v', hn, _, _, hv, _, h => visitText_tag_padded hoff hname hn.1.1 hn.1.2 hv h
  | .block head body, v, v', hn, hi, hs, hv, hv', h => by
    have hformed : head.Formed := (Node.AllPlain.formed (Node.AllGapless.plain hn)).1.1
    have hkept : ∀ {p p' : Place φ} {os os' : List (Place φ)}, Stance env d p os →
        Stance env d' p' os' → p.Padded name p' → List.Forall₂ (Place.Padded name) os os' →
        levelText env d inc p os [.block head body] =
          levelText env d' inc' p' os' [.block head body] :=
      fun hp hp' h ho => levelText_node_padded hoff hname hflag _ hn hi hp hp' h ho
    obtain ⟨⟨hplain, hgaps⟩, hnb⟩ := hn.1
    obtain ⟨hclosed, hib⟩ := Node.wanting_block hi
    have hbody : ∀ w w' : Visit φ, Goes env d head v w → Goes env d' head v' w' →
        w.Padded name w' → visitText env d inc w body = visitText env d' inc' w' body :=
      fun w w' hg hg' hw => visitText_padded hoff hname hflag hd hd' body w w' hnb hib
        (hs.inside hg') (hg.stands hd hformed hv) (hg'.stands hd' hformed hv') hw
    cases h with
    | second hplace hover => exact hkept hv hv' hplace hover
    | @both place place' far far' overlays overlays' inScope waiting hplace hfar hover =>
      rcases fate_padded hoff hname hflag hplain hgaps hplace with
        ⟨f, f', hf, hf', hff⟩ | ⟨hw, hlast, hr, q, hr'⟩
      · exact visitText_alike_padded hoff hname hflag hplain hnb hgaps hbody
          (hkept hv.far hv'.far hfar hover) hv.1.clean hv'.1.clean hplace hfar hover hf hf' hff
      · have hmem : Node.block head body ∈ [Node.block head body] := List.mem_singleton.2 rfl
        refine visitText_null_padded hoff hname hflag hplain hd' hnb hib hv hv' hfar hover hw hr hr'
          (fun hx => hclosed hx hlast)
          (fun hx hc => hs _ _ _ _ _ head body q (.here hmem) hx hc hlast hw hr')
          fun hx hin hflat => ?_
        -- from the null, the passes come to the same sections of the body as from around it
        subst hin
        refine visitText_padded hoff hname hflag hd hd' body _ _ hnb hib ?_ hv hv'
          (.both true waiting hplace hfar hover)
        refine (hs.inside hflat).moved (Node.AllGapless.plain hnb) (.both ?_ ?_ ?_)
        · exact .inr (hclosed hx hlast)
        · exact hv'.staging.place
        · exact (hflat.stands hd' hformed hv').staging.place

/-- **Both passes make the same text** with the null and without it. -/
private theorem visitText_padded (hoff : env.settings.errorOnMissingTags = false)
    (hname : '.' ∉ name.toList) (hflag : name ≠ displayKey) (hd : d.isData = true)
    (hd' : d'.isData = true) : (nodes : List Node) → ∀ v v' : Visit φ, Node.AllGapless nodes →
    Node.allWanting name Node.allClosed nodes = true → SettledFor env d' name v' nodes →
    v.Stands env d → v'.Stands env d' → v.Padded name v' →
    visitText env d inc v nodes = visitText env d' inc' v' nodes
  | [], v, v', _, _, _, _, _, h => by
    cases h with
    | both => exact stagedText_nil.trans stagedText_nil.symm
    | second => exact levelText_nil.trans levelText_nil.symm
  | node :: nodes, v, v', hn, hi, hs, hv, hv', h => by
    simp only [Node.allWanting, Bool.and_eq_true] at hi
    have hhead : [node] ⊆ node :: nodes := by simp
    have htail : nodes ⊆ node :: nodes := List.subset_cons_self node nodes
    rw [← List.singleton_append, visitText_append, visitText_append,
      visitText_node_padded hoff hname hflag hd hd' node v v' ⟨hn.1, trivial⟩ hi.1 (hs.mono hhead)
        hv hv' h,
      visitText_padded hoff hname hflag hd hd' nodes v v' hn.2 hi.2 (hs.mono htail) hv
        hv' h]

end

end Passes

end Treeless

/-- Without links and included templates, data without functions always gives a text. -/
theorem Run.outcome_ok {env : Env φ} (hoff : env.settings.errorOnMissingTags = false)
    {template : Template} (hn : Node.AllPlain template.nodes) {d : Value φ} (hd : d.isData = true) :
    ∃ text, outcome env template d = .ok text := by
  rw [outcome_plain hd hn]
  cases h : Treeless.render env template d with
  | ok text => exact ⟨text, rfl⟩
  | error e =>
    obtain ⟨hon, -⟩ := Treeless.error_of_render hd hn h
    cases hoff.symm.trans hon

/-- **Null instead of nothing.** A record anywhere in the data may be given a field bound to null
that it lacks, and the render gives the same text, if no section that is shown for want of something
under the name of the field has a body that looks into the scope around, and the body is settled
where the first pass finds a null for an absolute key. -/
theorem Run.outcome_padded {env : Env φ} (hoff : env.settings.errorOnMissingTags = false)
    {template : Template} (hn : Node.AllGapless template.nodes) {name : String}
    (hname : '.' ∉ name.toList) (hflag : name ≠ displayKey) {d d' : Value φ}
    (hd : d.isData = true) (hnames : d.namesDotless = true) (h : d.AddsNull name d')
    (hclosed : Node.allWanting name Node.allClosed template.nodes = true)
    (hs : Treeless.SettledFor env d' name (.start d') template.nodes) :
    ∃ text, outcome env template d = .ok text ∧ outcome env template d' = .ok text := by
  have hplain : Node.AllPlain template.nodes := hn.plain
  have hd' : d'.isData = true := h.isData hd
  obtain ⟨text, htext⟩ := outcome_ok hoff hplain hd
  refine ⟨text, htext, ?_⟩
  have htop : (Place.top d).Padded name (.top d') := .top (.inr h) hd hnames
  have hsame : Treeless.visitText env d (Treeless.includeText env d maxPartialDepth) (.start d)
      template.nodes = Treeless.visitText env d' (Treeless.includeText env d' maxPartialDepth)
        (.start d') template.nodes :=
    Treeless.visitText_padded hoff hname hflag hd hd' template.nodes _ _ hn hclosed hs
      (.start hd) (.start hd') (.both true [] htop htop .nil)
  rw [outcome_plain hd hplain] at htext
  rw [outcome_plain hd' hplain]
  exact Treeless.toOption_eq_some.1 (hsame.symm.trans (congrArg Except.toOption htext))

namespace Unbound

def env : Env Empty := ⟨⟨fun _ f _ _ => nomatch f⟩, .default, Number.specFormatter, []⟩

def tag (path : String) (inContext : Bool) : Node :=
  .tag ⟨"", none, .ofPath path inContext, [], none, false⟩

def block (directive : Directive) (path : String) (inContext : Bool) (body : List Node) : Node :=
  .block ⟨⟨"", some directive, .ofPath path inContext, [], none, false⟩, .ofPath path inContext, []⟩
    body

theorem gapless_tag {path : String} {inContext : Bool} (hpath : path ≠ "")
    (hgaps : "" ∉ (Key.ofPath path inContext).segments) : Node.AllGapless [tag path inContext] :=
  ⟨⟨⟨Key.formed_ofPath fun _ => hpath, rfl⟩, fun _ hs h => hgaps (h ▸ hs)⟩, trivial⟩

theorem gapless_block {directive : Directive} {path : String} {inContext : Bool} {body : List Node}
    (hplain : directive ≠ .passSection) (hpath : path ≠ "")
    (hgaps : "" ∉ (Key.ofPath path inContext).segments) (hbody : Node.AllGapless body) :
    Node.AllGapless [block directive path inContext body] :=
  ⟨⟨⟨⟨Key.formed_ofPath fun _ => hpath, rfl, decide_eq_false fun h => hplain (Option.some.inj h)⟩,
    fun _ hs h => hgaps (h ▸ hs)⟩, hbody⟩, trivial⟩

/-- The names in a list if nothing is bound to `zz`, and a mark for each item that binds nothing to
it. -/
def marked : Template where
  nodes := [block .sectionExclude "zz" false [block .sectionInclude "xs" false [tag "n" true]],
    block .sectionInclude "xs" false [block .sectionExclude "zz" true [tag "mark" false]]]
  delimiters := .default

def names (last : List (String × Value Empty)) : List (String × Value Empty) :=
  [("xs", .array [.record [("n", .string "a")], .record last]), ("mark", .string "!")]

/-- Two names, with a null in the last item, with one at the top, and without any. -/
def bare : Value Empty := .record (names [("n", .string "b")])

def inItem : Value Empty := .record (names [("n", .string "b"), ("zz", .null)])

def atTop : Value Empty := .record (names [("n", .string "b")] ++ [("zz", .null)])

/-- What is found in context, where nothing is bound to `zz`. -/
def around : Template where
  nodes := [block .sectionExclude "zz" false [tag "x" true]]
  delimiters := .default

def single : List (String × Value Empty) := [("x", .string "v")]

end Unbound

open Unbound in
/-- A null in an item of a list, or at the top. -/
theorem Run.outcome_padded_names :
    (bare.AddsNull "zz" inItem ∧ bare.AddsNull "zz" atTop) ∧ outcome env marked bare = .ok "ab!!" ∧
      outcome env marked inItem = .ok "ab!!" ∧ outcome env marked atTop = .ok "ab!!" := by
  have hitem : bare.AddsNull "zz" inItem :=
    .field [] "xs" [("mark", .string "!")] (.item [.record [("n", .string "a")]] [] (.here rfl))
  have htop : bare.AddsNull "zz" atTop := .here rfl
  have hn : Node.AllGapless marked.nodes := by
    have hnames : Node.AllGapless [tag "n" true] := gapless_tag (by decide) (by decide)
    have hmark : Node.AllGapless [tag "mark" false] := gapless_tag (by decide) (by decide)
    have hlist : ∀ {body}, Node.AllGapless body →
        Node.AllGapless [block .sectionInclude "xs" false body] :=
      gapless_block (by decide) (by decide) (by decide)
    exact ⟨(gapless_block (by decide) (by decide) (by decide) (hlist hnames)).1,
      hlist (gapless_block (by decide) (by decide) (by decide) hmark)⟩
  have hbare : outcome env marked bare = .ok "ab!!" := by
    rw [← Treeless.toOption_eq_some]
    decide +kernel
  have hsettled : ∀ d : Value Empty, d.isData = true →
      Treeless.SettledFor env d "zz" (.start d) marked.nodes :=
    fun d hd => Treeless.settledFor_of_placeless hd (.start hd) hn.plain (by decide)
  obtain ⟨text, htext, hsame⟩ := outcome_padded rfl hn (by decide) (by decide) rfl (by decide)
    hitem (by decide) (hsettled inItem rfl)
  obtain ⟨text', htext', hsame'⟩ := outcome_padded rfl hn (by decide) (by decide) rfl (by decide)
    htop (by decide) (hsettled atTop rfl)
  refine ⟨⟨hitem, htop⟩, hbare, ?_, ?_⟩
  · rw [hsame, ← htext, hbare]
  · rw [hsame', ← htext', hbare]

open Unbound in
/-- A body that is read in the null itself. -/
theorem Run.outcome_padded_around :
    Node.AllGapless around.nodes ∧
      (Value.record single).isData = true ∧ (Value.record single).namesDotless = true ∧
      (Value.record single).AddsNull "zz" (.record (single ++ [("zz", .null)])) ∧
      outcome env around (.record single) = .ok "v" ∧
      outcome env around (.record (single ++ [("zz", .null)])) = .ok "" := by
  have hn : Node.AllGapless around.nodes :=
    gapless_block (by decide) (by decide) (by decide) (gapless_tag (by decide) (by decide))
  refine ⟨hn, rfl, by decide, .here rfl, ?_, ?_⟩
  · rw [← Treeless.toOption_eq_some]
    decide +kernel
  · rw [← Treeless.toOption_eq_some]
    decide +kernel

end TextTemplate
