import TextTemplate.Proofs.Plain

/-!
Both passes against the second alone. What the first pass turns into text or flattens is rendered
where it stands, and what it leaves is rendered again from where the second pass happens to be. On
steady nodes the two agree: the first pass changes nothing but the time at which things are looked up.
-/
namespace TextTemplate
variable {φ : Type}

namespace Treeless

variable {env : Env φ} {data : Value φ}
  {inc : Inclusion → Place φ → Except TemplateError String}
  {p q place far : Place φ} {overlays : List (Place φ)}

mutual

/-- Whether the two passes agree on a node with rendering it at once. The first pass stands at
`place`, the second will stand at `far`. A section that is left whole must not need the place where
it stood, and the copy of a repeated section must lead back to where it was made. -/
def Steady (env : Env φ) (place : Place φ) (inScope : Bool) (far : Place φ)
    (overlays : List (Place φ)) : Node → Prop
  | .text _ => True
  | .tag _ => True
  | .inclusion _ => True
  | .block head body =>
    if head.key.inContext && !inScope then True
    else if !head.key.inContext && Place.covered overlays head.key.text then
      inScope = false ∨ place = far ∨ head.inclusive = true ∨ Node.allClosed body = true
    else
      match findPlace env.host (env.policy head.raw) place [] head.key with
      | .error _ => True
      | .ok none =>
        if head.key.inContext then
          head.inclusive = false → AllSteady env place inScope far overlays body
        else inScope = false ∨ place = far ∨ head.inclusive = true ∨ Node.allClosed body = true
      | .ok (some q) =>
        if q.bound.isArray then
          if head.inclusive then
            q.bound.size ≠ 0 →
              findPlace env.host (env.policy head.raw) far overlays (head.key.anchored place.path) =
                  .ok (some q) ∧
                ∀ i < q.bound.size, shows env true (q.item q.bound i).bound = true →
                  AllSteady env place false (q.item q.bound i) (q.item q.bound i :: overlays) body
          else q.bound.size = 0 → AllSteady env place inScope far overlays body
        else shows env head.inclusive q.bound = true → AllSteady env q true far overlays body

def AllSteady (env : Env φ) (place : Place φ) (inScope : Bool) (far : Place φ)
    (overlays : List (Place φ)) : List Node → Prop
  | [] => True
  | node :: nodes =>
    Steady env place inScope far overlays node ∧ AllSteady env place inScope far overlays nodes

end

/-- The first pass at `place` and the second at `far`. -/
structure Staging (env : Env φ) (data : Value φ) (place : Place φ) (waiting : List String)
    (far : Place φ) (overlays : List (Place φ)) : Prop where
  place : Stance env data place []
  far : Stance env data far overlays
  waiting : ∀ key, (waiting.any fun path => pathCovers path key) = Place.covered overlays key

theorem Staging.near {waiting : List String} (h : Staging env data place waiting far overlays) :
    Stance env data place overlays where
  clean := h.place.clean
  overlaysClean := h.far.overlaysClean
  footing := ⟨⟨fun key hk hc _ => h.place.footing.place.search key hk hc rfl,
    h.place.footing.place.orphan⟩, h.far.footing.overlays⟩

section Staged

variable {inScope : Bool} {waiting : List String}

/-- What does not wait is found in the first pass where the second would find it from here. -/
theorem Staging.resolve_eq (h : Staging env data place waiting far overlays) {b : Binding}
    (hl : b.links = []) (hk : b.key.Formed) (hw : mustWait b inScope waiting = false) :
    resolve env data b place [] =
      resolve env data b (if inScope then place else far) overlays := by
  rw [mustWait_plain hl] at hw
  rw [resolve_plain hl, resolve_plain hl]
  refine congrArg (· >>= _) ?_
  cases hc : b.key.inContext with
  | true =>
    have hs : inScope = true := by simpa [hc] using hw
    simp [findPlace, hc, hs]
  | false =>
    have hcov : Place.covered overlays b.key.text = false := by
      rw [← h.waiting]
      simpa [hc] using hw
    refine Place.Footing.findPlace_bare h.place.footing.place hk hc ?_ hcov
    split
    · exact h.near.footing.place
    · exact h.far.footing.place

/-- A section that is left whole comes to the same in the second pass as from here. -/
theorem Staging.kept (h : Staging env data place waiting far overlays) {head : Section}
    {body : List Node} (hn : Node.Plain (.block head body))
    (hk : inScope = false ∨ head.key.inContext = false ∧
      (place = far ∨ head.inclusive = true ∨ Node.allClosed body = true)) :
    nodeText env data inc far overlays (.block head body) =
      nodeText env data inc (if inScope then place else far) overlays (.block head body) := by
  cases inScope with
  | false => rfl
  | true =>
    obtain ⟨hc, hsettled⟩ := hk.resolve_left (by simp)
    simp only [if_true]
    rcases hsettled with rfl | hi | hclosed
    · rfl
    · exact expandSection_moved hn.1 h.far (resolve_moved hn.1.links hn.1.key hc h.far h.near)
        fun hx => by simp [hi] at hx
    · exact expandSection_moved hn.1 h.far (resolve_moved hn.1.links hn.1.key hc h.far h.near)
        fun _ => levelText_closed body hn.2 hclosed h.far h.near

theorem stagedNodeText_of_ok {node : Node} {staged : List Node}
    (h : stageNode env data inc place inScope waiting node = .ok staged) :
    stagedNodeText env data inc place inScope waiting far overlays node =
      levelText env data inc far overlays staged := by
  rw [stagedNodeText, h]
  rfl

theorem Calm.body {head : Section} {body : List Node}
    (h : Calm env false [.block head body]) : Calm env false body :=
  h.inside fun _ hb => hb

/-- A tag that is left to the second pass comes to the same there as from here. -/
theorem Staging.tag_kept (h : Staging env data place waiting far overlays) {tag : Tag}
    (ht : tag.Plain) (hk : inScope = false ∨ tag.key.inContext = false) :
    nodeText env data inc far overlays (.tag tag) =
      nodeText env data inc (if inScope then place else far) overlays (.tag tag) := by
  cases inScope with
  | false => rfl
  | true =>
    exact nodeText_tag (resolve_moved ht.links ht.key (hk.resolve_left (by simp)) h.far h.near)

theorem Staging.tag (h : Staging env data place waiting far overlays) {tag : Tag} (ht : tag.Plain) :
    stagedNodeText env data inc place inScope waiting far overlays (.tag tag) =
      nodeText env data inc (if inScope then place else far) overlays (.tag tag) := by
  have hleft : stageNode env data inc place inScope waiting (.tag tag) = .ok [.tag tag] →
      (inScope = false ∨ tag.key.inContext = false) →
      stagedNodeText env data inc place inScope waiting far overlays (.tag tag) =
        nodeText env data inc (if inScope then place else far) overlays (.tag tag) := by
    intro hstage hk
    rw [stagedNodeText_of_ok hstage, levelText_singleton, h.tag_kept ht hk]
  cases hw : mustWait tag.binding inScope waiting with
  | true =>
    refine hleft (by rw [stageNode, hw]; rfl) ?_
    rw [mustWait_plain ht.links] at hw
    cases hc : tag.key.inContext with
    | false => exact .inr rfl
    | true => exact .inl (by simpa [Tag.binding, hc] using hw)
  | false =>
    have hnear := h.resolve_eq ht.links ht.key hw
    rcases resolve_bare env data (b := tag.binding) ht.links h.place.clean with
      ⟨-, hr⟩ | ⟨q, -, -, hr⟩
    · cases hin : tag.key.inContext && inScope with
      | true =>
        have hstage : stageNode env data inc place inScope waiting (.tag tag) =
            missing env tag.raw >>= fun _ => .ok [] := by
          rw [stageNode, hw, hr]
          simp only [hin]
          rfl
        have htext : settleNode env data inc (if inScope then place else far) overlays none
            (.tag tag) = missing env tag.raw >>= fun _ => .ok "" := by
          rw [settleNode, ← hnear, hr]
          rfl
        rw [stagedNodeText, hstage, nodeText, htext] <;> [skip; simp]
        cases missing env tag.raw <;> rfl
      | false =>
        refine hleft (by rw [stageNode, hw, hr]; simp only [hin]; rfl) ?_
        cases hc : tag.key.inContext with
        | false => exact .inr rfl
        | true => exact .inl (by simpa [hc] using hin)
    · have hstage : stageNode env data inc place inScope waiting (.tag tag) =
          .ok [.text (tagText env tag q.bound)] := by
        rw [stageNode, hw, hr]
        rfl
      have htext : settleNode env data inc (if inScope then place else far) overlays none
          (.tag tag) = .ok (tagText env tag q.bound) := by
        rw [settleNode, ← hnear, hr]
        rfl
      rw [stagedNodeText_of_ok hstage, levelText_text, nodeText, htext] <;> [rfl; simp]

section Blocks

variable {head : Section} {body : List Node}

/-- A section that need not wait is seen from here, and no overlay covers its key. -/
theorem Staging.steady_now (h : Staging env data place waiting far overlays) (hp : head.Plain)
    (hw : mustWait head.binding inScope waiting = false) :
    (head.key.inContext && !inScope) = false ∧
      (!head.key.inContext && Place.covered overlays head.key.text) = false := by
  rw [mustWait_plain hp.links] at hw
  cases hc : head.key.inContext with
  | true => exact ⟨by simpa [Section.binding, hc] using hw, rfl⟩
  | false =>
    refine ⟨rfl, ?_⟩
    rw [← h.waiting]
    simpa [Section.binding, hc] using hw

theorem Staging.waits (h : Staging env data place waiting far overlays)
    (hn : Node.Plain (.block head body)) (hs : Steady env place inScope far overlays (.block head body))
    (hw : mustWait head.binding inScope waiting = true) :
    stagedNodeText env data inc place inScope waiting far overlays (.block head body) =
      nodeText env data inc (if inScope then place else far) overlays (.block head body) := by
  rw [stagedNodeText_of_ok (stage_waits hw), levelText_singleton]
  refine h.kept hn ?_
  rw [Steady] at hs
  rw [mustWait_plain hn.1.links] at hw
  cases hc : head.key.inContext with
  | true => exact .inl (by simpa [Section.binding, hc] using hw)
  | false =>
    have hcov : Place.covered overlays head.key.text = true := by
      rw [← h.waiting]
      simpa [Section.binding, hc] using hw
    simp only [hc, hcov, Bool.false_and, Bool.false_eq_true, if_false, Bool.not_false,
      Bool.and_self, if_true] at hs
    exact hs.imp_right fun h => ⟨rfl, h⟩

/-- A section whose key leads nowhere. -/
theorem Staging.missing (h : Staging env data place waiting far overlays)
    (hn : Node.Plain (.block head body)) (hs : Steady env place inScope far overlays (.block head body))
    (hw : mustWait head.binding inScope waiting = false)
    (hf : findPlace env.host (env.policy head.raw) place [] head.key = .ok none)
    (hr : resolve env data head.binding place [] = .ok none)
    (hbody : AllSteady env place inScope far overlays body →
      stagedText env data inc place inScope waiting far overlays body =
        levelText env data inc (if inScope then place else far) overlays body) :
    stagedNodeText env data inc place inScope waiting far overlays (.block head body) =
      nodeText env data inc (if inScope then place else far) overlays (.block head body) := by
  obtain ⟨hseen, huncovered⟩ := h.steady_now hn.1 hw
  simp only [Steady, hseen, huncovered, Bool.false_eq_true, if_false, hf] at hs
  cases hin : head.key.inContext && inScope with
  | true =>
    simp only [Bool.and_eq_true] at hin
    simp only [hin.1, if_true] at hs
    have hnear := h.resolve_eq (b := head.binding) hn.1.links hn.1.key hw
    rw [stagedNodeText, stage_missing hw hr, nodeText, expand_missing (hnear ▸ hr)]
    simp only [hin.1, hin.2, Bool.and_self, if_true, bind_assoc]
    rw [toOption_bind (Treeless.missing env head.raw), toOption_bind (Treeless.missing env head.raw)]
    refine congrArg _ (funext fun _ => ?_)
    cases hi : head.inclusive with
    | true => exact (levelText_nil : levelText env data inc far overlays [] = _)
    | false =>
      have hplace := hbody (hs hi)
      simp only [hin.2, if_true] at hplace
      exact hplace
  | false =>
    have hstage : stageNode env data inc place inScope waiting (.block head body) =
        .ok [.block head body] := by
      rw [stage_missing hw hr, hin]
      rfl
    rw [stagedNodeText_of_ok hstage, levelText_singleton]
    refine h.kept hn ?_
    cases hc : head.key.inContext with
    | true => exact .inl (by simpa [hc] using hin)
    | false =>
      simp only [hc, Bool.false_eq_true, if_false] at hs
      exact hs.imp_right fun h => ⟨rfl, h⟩

/-- The copy of a repeated section, when it leads back to where it was made. -/
theorem Staging.copied {q : Place φ} {staged : List Node}
    (h : Staging env data place waiting far overlays) (hp : head.Plain) (hq : q.Clean)
    (ha : q.bound.isArray = true) (hi : head.inclusive = true)
    (hcopy : findPlace env.host (env.policy head.raw) far overlays (head.key.anchored place.path) =
      .ok (some q))
    (hstaged : stageNodes env data inc place false (q.path :: waiting) body = .ok staged)
    (hitems : ∀ i < q.bound.size, shows env true (q.item q.bound i).bound = true →
      Staging env data place (q.path :: waiting) (q.item q.bound i) (q.item q.bound i :: overlays) →
      stagedText env data inc place false (q.path :: waiting) (q.item q.bound i)
          (q.item q.bound i :: overlays) body =
        levelText env data inc (q.item q.bound i) (q.item q.bound i :: overlays) body) :
    levelText env data inc far overlays [.block (head.anchored place.path) staged] =
      (expandItems env data head.raw (fun p os => expandLevel env data inc p os body) q overlays
        (List.range q.bound.size) >>= fun texts =>
          .ok (if head.list then Text.joinList texts else String.join texts)).toOption := by
  have hlinks : (head.anchored place.path).binding.links = [] := (hp.anchored place.path).links
  have hagain : resolve env data (head.anchored place.path).binding far overlays =
      .ok (some (.plain q q.bound)) := by
    rw [resolve_plain hlinks]
    have hfound : findPlace env.host (env.policy (head.anchored place.path).binding.raw) far
        overlays (head.anchored place.path).binding.key = .ok (some q) := hcopy
    rw [hfound]
    simp only [bind, Except.bind, hq.read]
  have hpass : (head.anchored place.path).passesText = false := hp.passes
  have hincl : (head.anchored place.path).inclusive = true := hi
  rw [levelText_singleton, nodeText, expand_found hpass hq.bound hagain, if_pos ha, if_pos hincl,
    toOption_bind, toOption_bind]
  refine congrArg (Option.bind · _) (expandItems_congr fun i hm v w hv hw hd => ?_)
  have hitem := hq.item i
  obtain rfl : q.bound = v := Except.ok.inj (hq.read.symm.trans hv)
  obtain rfl : (q.item q.bound i).bound = w := Except.ok.inj (hitem.read.symm.trans hw)
  have hshown : shows env true (q.item q.bound i).bound = true := by
    rw [display_clean hitem.bound] at hd
    simpa using hd
  have hfar : Stance env data q overlays :=
    ⟨hq, h.far.overlaysClean, h.far.footing.found (hp.key.anchored _) hcopy⟩
  have hstaging : Staging env data place (q.path :: waiting) (q.item q.bound i)
      (q.item q.bound i :: overlays) :=
    ⟨h.place, hfar.item i, fun key => by
      rw [List.any_cons, h.waiting]
      rfl⟩
  have htext := hitems i (List.mem_range.1 hm) hshown hstaging
  rwa [stagedText_of_ok hstaged] at htext

/-- A section whose key leads to a value. -/
theorem Staging.found {q : Place φ} (h : Staging env data place waiting far overlays)
    (hn : Node.Plain (.block head body)) (hcalm : Calm env false [.block head body])
    (hs : Steady env place inScope far overlays (.block head body))
    (hw : mustWait head.binding inScope waiting = false) (hq : q.Clean)
    (hf : findPlace env.host (env.policy head.raw) place [] head.key = .ok (some q))
    (hr : resolve env data head.binding place [] = .ok (some (.plain q q.bound)))
    (hbody : ∀ {place far : Place φ} (inScope : Bool) {waiting : List String}
      {overlays : List (Place φ)}, Staging env data place waiting far overlays →
      AllSteady env place inScope far overlays body →
      stagedText env data inc place inScope waiting far overlays body =
        levelText env data inc (if inScope then place else far) overlays body) :
    stagedNodeText env data inc place inScope waiting far overlays (.block head body) =
      nodeText env data inc (if inScope then place else far) overlays (.block head body) := by
  obtain ⟨hseen, huncovered⟩ := h.steady_now hn.1 hw
  simp only [Steady, hseen, huncovered, Bool.false_eq_true, if_false, hf] at hs
  have hnear := h.resolve_eq (b := head.binding) hn.1.links hn.1.key hw
  have hempty : some "" = levelText env data inc far overlays [] := levelText_nil.symm
  rw [stagedNodeText, stage_found hn.1.passes hw hq.bound hr, nodeText,
    expand_found hn.1.passes hq.bound (hnear ▸ hr)]
  cases ha : q.bound.isArray with
  | true =>
    simp only [ha, if_true] at hs ⊢
    cases hi : head.inclusive with
    | false =>
      simp only [hi, Bool.false_eq_true, if_false] at hs ⊢
      split
      · exact hbody inScope h (hs ‹_›)
      · exact hempty.symm
    | true =>
      simp only [hi, if_true] at hs ⊢
      by_cases hsize : q.bound.size = 0
      · rw [hsize, if_pos rfl, expandItems_none]
        exact hempty.symm
      · obtain ⟨hcopy, hitems⟩ := hs hsize
        obtain ⟨staged, hstaged⟩ : ∃ staged,
            stageNodes env data inc place false (q.path :: waiting) body = .ok staged :=
          stageNodes_ok body false (q.path :: waiting) h.place.clean hn.2 hcalm.body
        rw [if_neg hsize, hstaged]
        exact h.copied hn.1 hq ha hi hcopy hstaged fun i hlt hshown hstaging =>
          hbody false hstaging (hitems i hlt hshown)
  | false =>
    simp only [ha, Bool.false_eq_true, if_false] at hs ⊢
    split
    · exact hbody true ⟨h.place.found hn.1.key hf, h.far, h.waiting⟩ (hs ‹_›)
    · exact hempty.symm

end Blocks

end Staged

mutual

theorem stagedNodeText_eq : (node : Node) → ∀ {place far : Place φ} (inScope : Bool)
    {waiting : List String} {overlays : List (Place φ)},
    Staging env data place waiting far overlays → Node.Plain node → Calm env false [node] →
    Steady env place inScope far overlays node →
    stagedNodeText env data inc place inScope waiting far overlays node =
      nodeText env data inc (if inScope then place else far) overlays node
  | .text text, _, _, _, _, _, _, _, _, _ => by
    rw [stagedNodeText, stageNode, pure_bind]
    exact levelText_text text
  | .inclusion _, _, _, _, _, _, _, hn, _, _ => hn.elim
  | .tag _, _, _, _, _, _, hst, hn, _, _ => hst.tag hn
  | .block head body, place, far, inScope, waiting, overlays, hst, hn, hcalm, hs => by
    cases hw : mustWait head.binding inScope waiting with
    | true => exact hst.waits hn hs hw
    | false =>
      rcases resolve_bare env data (b := head.binding) hn.1.links hst.place.clean with
        ⟨hf, hr⟩ | ⟨q, hf, hq, hr⟩
      · exact hst.missing hn hs hw hf hr fun hb => stagedText_eq body inScope hst hn.2 hcalm.body hb
      · exact hst.found hn hcalm hs hw hq hf hr fun b _ _ h hb =>
          stagedText_eq body b h hn.2 hcalm.body hb

theorem stagedText_eq : (nodes : List Node) → ∀ {place far : Place φ} (inScope : Bool)
    {waiting : List String} {overlays : List (Place φ)},
    Staging env data place waiting far overlays → Node.AllPlain nodes → Calm env false nodes →
    AllSteady env place inScope far overlays nodes →
    stagedText env data inc place inScope waiting far overlays nodes =
      levelText env data inc (if inScope then place else far) overlays nodes
  | [], _, _, _, _, _, _, _, _, _ => by rw [stagedText_nil, levelText_nil]
  | node :: nodes, _, _, inScope, _, _, hst, hn, hcalm, hs => by
    rw [stagedText_cons, levelText_cons, stagedNodeText_eq node inScope hst hn.1 hcalm.head hs.1,
      stagedText_eq nodes inScope hst hn.2 hcalm.tail hs.2]

end

end Treeless

end TextTemplate
